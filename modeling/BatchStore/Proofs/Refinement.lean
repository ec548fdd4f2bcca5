import BatchStore.Proofs.LiveSnapshots
import BatchStore.Proofs.LoggedCalls

/-!
# A database is a plain map with history

The reference is a map that the successful writes change record by record, and
the states of it that snapshots were taken of. A session refines the reference
that has observed its events: the latest read is the map, and a live snapshot
reads the state that it was taken of. Writes prune versions up to a horizon, so
the relation also ties the registry to the live snapshots.
-/

namespace BatchStore

structure Reference where
  latest : Contents
  /-- The states of the map that snapshots were taken of, in order. -/
  kept : List Contents

namespace Reference

variable {δ : Type} [LogDevice δ]

def initial : Reference := ⟨.empty, []⟩

def observe (reference : Reference) : Event δ → Reference
  | .wrote call =>
    match call.written.result with
    | .ok _ => { reference with latest := reference.latest.applyAll call.batch.records }
    | .error _ => reference
  | .tookSnapshot (.ok _) => { reference with kept := reference.kept ++ [reference.latest] }
  | .tookSnapshot (.error _) | .sharedSnapshot _ | .droppedSnapshot _ | .closed _ => reference

def observeAll (reference : Reference) (events : List (Event δ)) : Reference :=
  events.foldl observe reference

end Reference

namespace Database

/-- The snapshot is one of this database and reads this map. -/
structure Keeps (db : Database) (snapshot : Snapshot) (contents : Contents) : Prop where
  own : snapshot.database = db.id
  le : snapshot.sequence ≤ db.last
  view : db.contentsAt snapshot.sequence = contents

/-- A read answers with exactly this map: each key with its value, and a cursor
over the keys that have one, each once. -/
structure Answers (db : Database) (settings : ReadSettings) (contents : Contents) : Prop where
  get : ∀ key, db.get settings key = .ok (contents key)
  cursor : ∃ cursor, db.cursor settings = .ok cursor ∧
    (∀ key value, (key, value) ∈ cursor.entries ↔ contents key = some value) ∧
    (cursor.entries.map (·.1)).Nodup

theorem answers_of_sequence {db : Database} {settings : ReadSettings} {sequence : Nat}
    (hordered : db.table.Ordered) (h : db.readSequence settings = .ok sequence) :
    db.Answers settings (db.contentsAt sequence) where
  get := by
    intro key
    unfold Database.get
    rw [h]
    rfl
  cursor := by
    unfold Database.cursor
    rw [h]
    refine ⟨_, rfl, fun key value => ?_, ?_⟩
    · unfold Cursor.ofEntries
      rw [List.mem_mergeSort]
      exact VersionTable.mem_visibleEntries hordered
    · have hperm := List.mergeSort_perm (db.table.visibleEntries sequence)
        fun a b => db.settings.keyOrder.compare a.1 b.1 ≠ .gt
      exact (hperm.map _).nodup_iff.mpr (VersionTable.nodup_visibleEntries hordered sequence)

theorem readSequence_latest {db : Database} {settings : ReadSettings} (hopen : db.isOpen = true)
    (h : settings.snapshot = none) : db.readSequence settings = .ok db.last := by
  unfold readSequence
  rw [hopen, h]
  rfl

theorem readSequence_snapshot {db : Database} {settings : ReadSettings} {snapshot : Snapshot}
    (hopen : db.isOpen = true) (h : settings.snapshot = some snapshot)
    (hown : snapshot.database = db.id) : db.readSequence settings = .ok snapshot.sequence := by
  unfold readSequence
  rw [hopen, h]
  exact if_pos hown

/-- Two reads of the same map, arranged in the same order, are the same. -/
theorem reads_congr {a b : Database} {settings : ReadSettings} {low high : Nat}
    (ha : a.table.Ordered) (hb : b.table.Ordered) (hlow : a.readSequence settings = .ok low)
    (hhigh : b.readSequence settings = .ok high) (hsame : a.contentsAt low = b.contentsAt high)
    (horder : a.settings.keyOrder = b.settings.keyOrder) :
    a.get settings = b.get settings ∧ a.cursor settings = b.cursor settings := by
  constructor
  · funext key
    rw [(answers_of_sequence ha hlow).get key, (answers_of_sequence hb hhigh).get key, hsame]
  · have hentries := VersionTable.visibleEntries_congr ha hb fun key => congrFun hsame key
    unfold Database.cursor
    rw [hlow, hhigh, horder]
    exact congrArg (fun entries => Except.ok (Cursor.ofEntries b.settings.keyOrder entries)) hentries

/-- Two databases that answer a read, and answer alike. -/
structure ReadAlike (a b : Database) (settings : ReadSettings) : Prop where
  answered : ∃ contents, a.Answers settings contents
  get : a.get settings = b.get settings
  cursor : a.cursor settings = b.cursor settings

theorem readAlike_of_contents {a b : Database} {settings : ReadSettings} {low high : Nat}
    (ha : a.table.Ordered) (hb : b.table.Ordered) (hlow : a.readSequence settings = .ok low)
    (hhigh : b.readSequence settings = .ok high) (hsame : a.contentsAt low = b.contentsAt high)
    (horder : a.settings.keyOrder = b.settings.keyOrder) : a.ReadAlike b settings := by
  obtain ⟨hget, hcursor⟩ := reads_congr ha hb hlow hhigh hsame horder
  exact ⟨⟨_, answers_of_sequence ha hlow⟩, hget, hcursor⟩

end Database

namespace Session

variable {δ : Type}

structure Refines (session : Session δ) (reference : Reference) : Prop where
  sound : session.database.Sound
  counts : session.database.snapshots.Counts (HeldSnapshot.live session.held)
  latest : session.database.contentsAt session.database.last = reference.latest
  length : session.held.length = reference.kept.length
  kept : ∀ (number : Nat) (held : HeldSnapshot), session.held[number]? = some held →
    held.holders ≠ 0 → ∃ contents, reference.kept[number]? = some contents ∧
      session.database.Keeps held.snapshot contents

/-- A restored database begins with what its log holds, and with no snapshots. -/
theorem refines_restored {state : Database.Replayed} (h : Database.Consistent state) (id : Nat)
    (settings : Settings) (directory : Option Directory) (log : δ) :
    (start (Database.restored id settings directory state) log).Refines
      ⟨Database.view state, []⟩ where
  sound := Database.sound_restored h id settings directory
  counts := counted_start rfl log
  latest := rfl
  length := rfl
  kept := fun _ _ h => nomatch h

/-- A holder comes or leaves without any snapshot coming back to life. -/
theorem kept_modify {session : Session δ} {reference : Reference} (h : session.Refines reference)
    {f : HeldSnapshot → HeldSnapshot} (hsnapshot : ∀ held, (f held).snapshot = held.snapshot)
    (hdead : ∀ held, held.holders = 0 → (f held).holders = 0) (changed number : Nat)
    (held : HeldSnapshot) (hheld : (session.held.modify changed f)[number]? = some held)
    (hlive : held.holders ≠ 0) :
    ∃ contents, reference.kept[number]? = some contents ∧
      session.database.Keeps held.snapshot contents := by
  rw [List.getElem?_modify] at hheld
  obtain ⟨old, hold, hf⟩ := Option.map_eq_some_iff.mp hheld
  by_cases hchanged : changed = number
  · rw [if_pos hchanged] at hf
    subst hf
    rw [hsnapshot]
    exact h.kept number old hold fun hzero => hlive (hdead old hzero)
  · rw [if_neg hchanged] at hf
    subst hf
    exact h.kept number old hold hlive

theorem refines_share {session : Session δ} {reference : Reference}
    (h : session.Refines reference) (number : Nat) :
    ({ session with held := session.held.modify number HeldSnapshot.share } :
      Session δ).Refines reference where
  sound := h.sound
  counts := counted_share h.counts number
  latest := h.latest
  length := by
    rw [List.length_modify]
    exact h.length
  kept := by
    refine kept_modify h (fun held => ?_) (fun held hzero => ?_) number
    · unfold HeldSnapshot.share
      split <;> rfl
    · unfold HeldSnapshot.share
      rw [if_pos hzero]
      exact hzero

theorem refines_drop {session : Session δ} {reference : Reference}
    (h : session.Refines reference) (number : Nat) :
    (session.dropSnapshot number).Refines reference := by
  have hkept := kept_modify h (f := HeldSnapshot.leave) (fun held => rfl)
    (fun held hzero => by unfold HeldSnapshot.leave; simp only; omega) number
  have hlength : (session.held.modify number HeldSnapshot.leave).length = reference.kept.length := by
    rw [List.length_modify]
    exact h.length
  have hcounted := counted_drop h.counts number
  unfold dropSnapshot at hcounted ⊢
  cases hheld : session.held[number]? with
  | none => exact h
  | some held =>
    simp only [hheld] at hcounted
    by_cases hlast : held.holders = 1
    · simp only [if_pos hlast] at hcounted ⊢
      refine ⟨⟨h.sound.ordered, h.sound.below⟩, hcounted, h.latest, hlength, ?_⟩
      intro other snapshot hsnapshot hlive
      obtain ⟨contents, hcontents, hown, hle, hview⟩ := hkept other snapshot hsnapshot hlive
      exact ⟨contents, hcontents, hown, hle, hview⟩
    · simp only [if_neg hlast] at hcounted ⊢
      exact ⟨h.sound, hcounted, h.latest, hlength, hkept⟩

/-- A batch under the next numbers is applied to the map, and to no state that a
snapshot was taken of. -/
theorem refines_applyBatch {session : Session δ} {reference : Reference}
    (h : session.Refines reference) {batch : DecodedBatch}
    (hfollows : session.database.Follows batch) (hcount : VersionTable.FitsCount batch.records)
    (log : δ) :
    ({ session with database := (session.database.applyBatch batch).2, log } : Session δ).Refines
      { reference with latest := reference.latest.applyAll batch.records } := by
  refine ⟨Database.sound_applyBatch hfollows hcount h.sound, h.counts, ?_, h.length, ?_⟩
  · rw [Database.contents_applyBatch hfollows hcount h.sound, h.latest]
  · intro number held hheld hlive
    obtain ⟨contents, hcontents, hkeeps⟩ := h.kept number held hheld hlive
    have hlow : session.database.horizon ≤ held.snapshot.sequence :=
      Database.horizon_le h.counts (HeldSnapshot.mem_live hheld hlive)
    refine ⟨contents, hcontents, hkeeps.own, ?_, ?_⟩
    · exact Nat.le_trans hkeeps.le (Database.last_le_applyBatch hfollows)
    · rw [Database.contentsAt_applyBatch hfollows h.sound.ordered hlow hkeeps.le]
      exact hkeeps.view

variable [LogDevice δ]

theorem refines_write {session : Session δ} {reference : Reference} (h : session.Refines reference)
    (hfits : session.database.last + 1 < UInt64.size) (settings : WriteSettings) (batch : Batch)
    (hunlogged : (⟨session.database, session.log, settings, batch⟩ : WriteCall δ).UnloggedFits) :
    (session.write settings batch).2.Refines
      (reference.observe (session.write settings batch).1) := by
  have heffect := Database.write_effect hfits session.log settings batch
  have hcount := hunlogged.fitsCount
  unfold WriteCall.Succeeds WriteCall.written at hcount
  unfold write Reference.observe WriteCall.written
  rcases heffect with ⟨hsame, hnothing⟩ | ⟨decoded, hfollows, hrecords, hresult, hdatabase⟩
  · -- nothing is applied, and a success has nothing to apply
    have hreference : (match (session.database.write session.log settings batch).result with
        | .ok _ => { reference with latest := reference.latest.applyAll batch.records }
        | .error _ => reference) = reference := by
      cases hr : (session.database.write session.log settings batch).result with
      | ok first =>
        simp only [hnothing first hr, Contents.applyAll_nil]
      | error error => rfl
    simp only [hreference, hsame]
    exact ⟨h.sound, h.counts, h.latest, h.length, h.kept⟩
  · have hcounted : VersionTable.FitsCount decoded.records := hrecords ▸ hcount ⟨_, hresult⟩
    simp only [hresult, hdatabase, ← hrecords]
    exact refines_applyBatch h hfollows hcounted _

theorem refines_takeSnapshot {session : Session δ} {reference : Reference}
    (h : session.Refines reference) :
    session.takeSnapshot.2.Refines (reference.observe session.takeSnapshot.1) := by
  have hcounted := counted_takeSnapshot h.counts
  unfold takeSnapshot at hcounted ⊢
  cases hopen : session.database.isOpen with
  | false =>
    rw [Database.takeSnapshot_closed hopen]
    exact ⟨h.sound, h.counts, h.latest, h.length, h.kept⟩
  | true =>
    rw [Database.takeSnapshot_open hopen] at hcounted ⊢
    refine ⟨⟨h.sound.ordered, h.sound.below⟩, hcounted, h.latest, ?_, ?_⟩
    · simp only [Reference.observe, List.length_append, List.length_singleton, h.length]
    · intro number held hheld hlive
      unfold Reference.observe
      simp only at hheld ⊢
      rcases Nat.lt_or_ge number session.held.length with hlt | hge
      · rw [List.getElem?_append_left hlt] at hheld
        obtain ⟨contents, hcontents, hown, hle, hview⟩ := h.kept number held hheld hlive
        refine ⟨contents, ?_, hown, hle, hview⟩
        rw [List.getElem?_append_left (h.length ▸ hlt)]
        exact hcontents
      · rw [List.getElem?_append_right hge] at hheld
        rw [List.getElem?_append_right (h.length ▸ hge), ← h.length]
        rw [List.getElem?_singleton] at hheld ⊢
        split at hheld
        · next hlast =>
          rw [if_pos hlast]
          obtain rfl := Option.some.inj hheld
          exact ⟨reference.latest, rfl, rfl, Nat.le_refl _, h.latest⟩
        · cases hheld

theorem refines_close {session : Session δ} {reference : Reference}
    (h : session.Refines reference) : session.close.2.Refines reference := by
  obtain ⟨isOpen, hdatabase, -⟩ := session.database.close_effect session.log
  show ({ session with
    database := (session.database.close session.log).2.1
    log := (session.database.close session.log).2.2 } : Session δ).Refines reference
  rw [hdatabase]
  refine ⟨⟨h.sound.ordered, h.sound.below⟩, h.counts, h.latest, h.length, ?_⟩
  intro number held hheld hlive
  obtain ⟨contents, hcontents, hown, hle, hview⟩ := h.kept number held hheld hlive
  exact ⟨contents, hcontents, hown, hle, hview⟩

theorem refines_step {session : Session δ} {reference : Reference} (h : session.Refines reference)
    (hfits : session.database.last + 1 < UInt64.size) {action : Action}
    (hunlogged : ∀ call, (session.step action).1 = .wrote call → call.UnloggedFits) :
    (session.step action).2.Refines (reference.observe (session.step action).1) := by
  cases action with
  | write settings batch => exact refines_write h hfits settings batch (hunlogged _ rfl)
  | put settings key value => exact refines_write h hfits settings _ (hunlogged _ rfl)
  | delete settings key => exact refines_write h hfits settings _ (hunlogged _ rfl)
  | merge settings key operand => exact refines_write h hfits settings _ (hunlogged _ rfl)
  | takeSnapshot => exact refines_takeSnapshot h
  | shareSnapshot number => exact refines_share h number
  | dropSnapshot number => exact refines_drop h number
  | close => exact refines_close h

theorem refines_run {session : Session δ} {reference : Reference} (actions : List Action)
    (h : session.Refines reference) (hnumbered : session.Numbered actions)
    (hunlogged : session.UnloggedFit actions) :
    (session.run actions).2.Refines (reference.observeAll (session.run actions).1) := by
  induction actions generalizing session reference with
  | nil => exact h
  | cons action actions ih =>
    obtain ⟨hfits, hnumbered⟩ := hnumbered
    obtain ⟨hfirst, hunlogged⟩ := unloggedFit_cons.mp hunlogged
    exact ih (refines_step h hfits hfirst) hnumbered hunlogged

end Session

end BatchStore
