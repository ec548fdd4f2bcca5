import BatchStore.Proofs.Directories
import BatchStore.Proofs.Modes

/-!
# What a failed opening leaves

A directory is bound to an order before its journal is read. So an opening that gets
as far as the journal and is refused there has stored the name of its order where none
was stored; any other failure leaves the order file, and the journal is always left.
-/

namespace BatchStore

instance StoreError.decidableIsOfJournal : (error : StoreError) → Decidable error.IsOfJournal
  | device _ | corruptLog _ | checksumMismatch .. => .isTrue trivial
  | batch _ | io _ | invalidArgument _ | locked | invalidDatabase _ | closed => .isFalse not_false

namespace Database

open Directory (lockName journalName orderName orderDraftName orderLine entry_ne)

variable {files after : FileSystem} {settings : Settings} {error : StoreError}

/-- A replay that is refused is refused for what is in the journal. -/
theorem isOfJournal_of_replayed {paranoid : Bool} {bytes : Bytes}
    (h : replayed paranoid bytes = .error error) : error.IsOfJournal := by
  cases paranoid with
  | false =>
    obtain ⟨result, hresult⟩ := (replayed_ok_iff false bytes).mpr nofun
    rw [hresult] at h
    cases h
  | true =>
    obtain ⟨stored, -, hfault⟩ := List.exists_of_findSome?_eq_some (replayed_error_iff.mp h)
    unfold Frame.Stored.fault? at hfault
    split at hfault
    · split at hfault
      · cases hfault
      · obtain rfl := Option.some.inj hfault
        trivial
    · obtain rfl := Option.some.inj hfault
      trivial

/-- What an opening that has failed with this error leaves of the files of a directory. -/
structure LeftBy (settings : Settings) (path : Path) (error : StoreError)
    (files after : FileSystem) : Prop where
  journal : after.file? (path.names ++ [journalName]) = files.file? (path.names ++ [journalName])
  /-- The order is stored where none was and the journal is what the opening failed at. -/
  order : after.file? (path.names ++ [orderName]) =
    if files.file? (path.names ++ [orderName]) = none ∧ error.IsOfJournal then
      some (orderLine settings.keyOrder.name)
    else files.file? (path.names ++ [orderName])
  /-- The journal's file could not be opened, or paranoid checks refuse what it holds. -/
  cause : error.IsOfJournal ↔ (∃ fault, error = .device fault) ∨
    ∃ bytes, files.file? (path.names ++ [journalName]) = some bytes ∧
      replayed settings.paranoidChecks bytes = .error error

theorem LeftBy.of_other {path : Path}
    (hjournal : after.file? (path.names ++ [journalName]) =
      files.file? (path.names ++ [journalName]))
    (horder : after.file? (path.names ++ [orderName]) = files.file? (path.names ++ [orderName]))
    (herror : ¬error.IsOfJournal) : LeftBy settings path error files after where
  journal := hjournal
  order := by rw [horder, if_neg fun h => herror h.2]
  cause := by
    refine ⟨fun h => absurd h herror, ?_⟩
    rintro (⟨fault, rfl⟩ | ⟨bytes, -, hreplayed⟩)
    · trivial
    · exact isOfJournal_of_replayed hreplayed

/-- Only two files matter to what a failed opening leaves. -/
theorem LeftBy.congr {path : Path} {start final : FileSystem}
    (h : LeftBy settings path error files after)
    (hstart : ∀ name, name ≠ lockName →
      files.file? (path.names ++ [name]) = start.file? (path.names ++ [name]))
    (hfinal : final.file? = after.file?) : LeftBy settings path error start final := by
  have hjournal := hstart journalName (by decide)
  have horder := hstart orderName (by decide)
  refine ⟨?_, ?_, ?_⟩
  · rw [hfinal, h.journal, hjournal]
  · rw [hfinal, h.order, horder]
  · rw [h.cause, hjournal]

/-- Behind the binding only the journal can fail. -/
theorem LeftBy.of_bound {path : Path} {bound : FileSystem} (h : Bound settings path files bound)
    (hafter :
      after.file? (path.names ++ [journalName]) = bound.file? (path.names ++ [journalName]) ∧
      after.file? (path.names ++ [orderName]) = bound.file? (path.names ++ [orderName]))
    (hcause : (∃ fault, error = .device fault) ∨
      ∃ bytes, bound.file? (path.names ++ [journalName]) = some bytes ∧
        replayed settings.paranoidChecks bytes = .error error) :
    LeftBy settings path error files after := by
  have herror : error.IsOfJournal := by
    rcases hcause with ⟨fault, rfl⟩ | ⟨bytes, -, hreplayed⟩
    · trivial
    · exact isOfJournal_of_replayed hreplayed
  rw [h.journal] at hcause
  refine ⟨hafter.1.trans h.journal, ?_, fun _ => hcause, fun _ => herror⟩
  rw [hafter.2, h.order]
  cases files.file? (path.names ++ [orderName]) with
  | none => rw [if_pos ⟨rfl, herror⟩, Option.getD_none]
  | some bytes => rw [if_neg (fun h => nomatch h.1), Option.getD_some]

theorem checkPresence_error {directory : Directory}
    (h : checkPresence settings directory files = .error error) : ¬error.IsOfJournal := by
  unfold checkPresence at h
  split at h
  · split at h
    · cases h
    · obtain rfl := Except.error.inj h
      exact not_false
  · split at h
    · obtain rfl := Except.error.inj h
      exact not_false
    · cases h

theorem openLocked_error {id : Nat} (directory : Directory) (h : files.WellFormed)
    (hdirectory : files.isDirectory directory.path = true)
    (hopen : openLocked id settings directory files = (.error error, after)) :
    LeftBy settings directory.path error files after := by
  have houtcome := openLocked_outcome h hdirectory id settings
  rw [hopen] at houtcome
  cases houtcome with
  | unwanted hpresence => exact .of_other rfl rfl (checkPresence_error hpresence)
  | unbound hbind =>
    rcases bindOrder_cases h hdirectory hbind with
      ⟨_, found, hresult, hother, hdraft⟩ | ⟨hresult, -⟩
    · obtain rfl := Except.error.inj hresult
      exact .of_other (hdraft.file?_of_ne (entry_ne _ (by decide)))
        (hdraft.file?_of_ne (entry_ne _ (by decide))) hother
    · cases hresult
  | unopened hbind => exact .of_bound (bindOrder_ok h hdirectory hbind) ⟨rfl, rfl⟩ (.inl ⟨_, rfl⟩)
  | @refused bound _ _ _ hbind hjournal hreplayed =>
    have hbound := bindOrder_ok h hdirectory hbind
    have hopened := becomes_openJournal hbound.wellFormed hjournal
    cases hfile : bound.file? (directory.path.names ++ [journalName]) with
    | none =>
      -- a journal that is new is empty, and nothing is wrong with it
      rw [hfile, Option.getD_none, replayed_nil] at hreplayed
      cases hreplayed
    | some bytes =>
      rw [hfile, Option.getD_some] at hreplayed hopened
      refine .of_bound hbound ⟨?_, hopened.file?_of_ne (entry_ne _ (by decide))⟩
        (.inr ⟨bytes, hfile, hreplayed⟩)
      have hentry := congrFun hopened.view (directory.path.names ++ [journalName])
      rw [Function.update_self] at hentry
      rw [FileSystem.file?_of_stored? hentry, hfile]

/-- When the opening of a directory fails, the journal is left as it was, and so is the
order file, unless there was none and the journal is what the opening failed at: then
the name of its order is stored. -/
theorem failed_open_leaves {id : Nat} {path : Path} (h : files.WellFormed)
    (hopen : openDirectory id settings files path = (.error error, after)) :
    LeftBy settings path error files after := by
  have houtcome := openDirectory_outcome h id settings path
  rw [hopen] at houtcome
  cases houtcome with
  | invalid => exact .of_other rfl rfl not_false
  | untaken hother htaken =>
    exact .of_other (htaken.file?_of_ne (entry_ne _ (by decide)))
      (htaken.file?_of_ne (entry_ne _ (by decide))) hother
  | @taken lock _ taken left _ hdirectory htaken hlocked =>
    have hothers : ∀ name, name ≠ lockName →
        taken.file? (path.names ++ [name]) = files.file? (path.names ++ [name]) :=
      fun name hname => htaken.file?_of_ne (entry_ne _ hname)
    have hleft := openLocked_error ⟨path, lock⟩ htaken.wellFormed hdirectory hlocked
    exact hleft.congr hothers (FileSystem.file?_unlock left lock)

/-- A directory that is bound to the order is left alone when its journal is refused. -/
theorem failed_open_leaves_bound :
    let damaged : Bytes := [1, 0, 0, 0, 0, 0, 0, 0, 9]
    let files := (((FileSystem.empty.makeDirectories ⟨["p"]⟩).2.write ⟨["p", "COMPARATOR"]⟩
      [97, 10]).2.write ⟨["p", "wal.log"]⟩ damaged).2
    let settings : Settings := { order := some ⟨"a", Ord.compare⟩ }
    ∃ error after, openDirectory 0 settings files ⟨["p"]⟩ = (.error error, after) ∧
      replayed true damaged = .error error ∧ after.file? ["p", "wal.log"] = some damaged ∧
      after.file? ["p", "COMPARATOR"] = some [97, 10] := by
  intro damaged files settings
  have hfiles : files.WellFormed :=
    ((FileSystem.wellFormed_empty.makeDirectories _).write _ _).write _ _
  have hjournal : files.file? (["p"] ++ [journalName]) = some damaged := by decide +kernel
  have horder : files.file? (["p"] ++ [orderName]) = some [97, 10] := by decide +kernel
  have hnames : (⟨["p"]⟩ : Path).names = ["p"] := by decide
  have hfails : (openDirectory 0 settings files ⟨["p"]⟩).1.map Prod.snd =
      .error (.checksumMismatch 0 0 0xabde5729) := by decide +kernel
  rcases hopen : openDirectory 0 settings files ⟨["p"]⟩ with ⟨result, after⟩
  rw [hopen] at hfails
  cases result with
  | ok opened => cases hfails
  | error error =>
    obtain rfl := Except.error.inj hfails
    obtain ⟨hleft, hbound, hcause⟩ := failed_open_leaves hfiles hopen
    rw [hnames, hjournal] at hleft hcause
    rw [hnames, horder, if_neg fun h => nomatch h.1] at hbound
    rcases hcause.mp trivial with ⟨fault, hfault⟩ | ⟨bytes, hbytes, hreplayed⟩
    · cases hfault
    · obtain rfl := Option.some.inj hbytes
      exact ⟨_, after, rfl, hreplayed, hleft, hbound⟩

/-- A directory that is bound to no order is bound by the opening that fails. -/
theorem failed_open_binds :
    let files := ((FileSystem.empty.makeDirectories ⟨["p"]⟩).2.write ⟨["p", "wal.log"]⟩
      [1, 0, 0, 0, 0, 0, 0, 0, 9]).2
    let settings : Settings := { order := some ⟨"a", Ord.compare⟩ }
    ∃ after, openDirectory 0 settings files ⟨["p"]⟩ =
        (.error (.checksumMismatch 0 0 0xabde5729), after) ∧
      files.exists? ⟨["p", "COMPARATOR"]⟩ = false ∧
      after.read ⟨["p", "COMPARATOR"]⟩ = .ok [97, 10] := by
  intro files settings
  have hread : (openDirectory 0 settings files ⟨["p"]⟩).2.read ⟨["p", "COMPARATOR"]⟩ =
      .ok [97, 10] := by decide +kernel
  have hfails : (openDirectory 0 settings files ⟨["p"]⟩).1.map Prod.snd =
      .error (.checksumMismatch 0 0 0xabde5729) := by decide +kernel
  rcases hopen : openDirectory 0 settings files ⟨["p"]⟩ with ⟨result, after⟩
  rw [hopen] at hread hfails
  cases result with
  | ok opened => cases hfails
  | error error =>
    obtain rfl := Except.error.inj hfails
    exact ⟨after, rfl, by decide +kernel, hread⟩

end Database

end BatchStore
