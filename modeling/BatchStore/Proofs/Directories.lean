import BatchStore.Database.Open
import BatchStore.Proofs.FileLogs
import BatchStore.Proofs.Opening

/-!
# Opening in a directory

What each step of the opening of a directory can come to: its lock is taken, the name
of the order is read or stored, and the journal is recovered. A step changes the files
that it is about and no others, so the order file is left alone by all steps but one.
-/

namespace BatchStore

open Function (update)
open LogDevice (Reliable)

/-- Opening has come as far as the journal: it could not be opened, or its replay was
refused. -/
def StoreError.IsOfJournal : StoreError → Prop
  | device _ | corruptLog _ | checksumMismatch .. => True
  | batch _ | io _ | invalidArgument _ | locked | invalidDatabase _ | closed => False

namespace Directory

variable {files after : FileSystem} {path : Path} {directory : Directory}

/-- The names of the files of a database. -/
def fileNames : List String := [lockName, journalName, orderName, orderDraftName]

theorem plain {name : String} (h : name ∈ fileNames) : Path.Plain name := by
  have hall : ∀ name ∈ fileNames, Path.isIdle name = false ∧ name ≠ ".." ∧
      name.utf8ByteSize ≤ 255 ∧ Char.ofNat 0 ∉ name.toList := by decide
  obtain ⟨hactive, hdown, hshort, hended⟩ := hall name h
  exact ⟨hactive, hdown, hshort, hended⟩

theorem lockName_mem : lockName ∈ fileNames := by decide

theorem journalName_mem : journalName ∈ fileNames := by decide

theorem orderName_mem : orderName ∈ fileNames := by decide

theorem orderDraftName_mem : orderDraftName ∈ fileNames := by decide

/-- Different entries of a directory have different names. -/
theorem entry_ne (names : List String) {name other : String} (h : name ≠ other) :
    names ++ [name] ≠ names ++ [other] := by
  intro heq
  exact h (List.singleton_inj.mp (List.append_cancel_left heq))

theorem names_journalPath (directory : Directory) :
    directory.journalPath.names = directory.path.names ++ [journalName] :=
  Path.names_child (plain journalName_mem) directory.path

theorem names_orderPath (directory : Directory) :
    directory.orderPath.names = directory.path.names ++ [orderName] :=
  Path.names_child (plain orderName_mem) directory.path

theorem names_orderDraftPath (directory : Directory) :
    directory.orderDraftPath.names = directory.path.names ++ [orderDraftName] :=
  Path.names_child (plain orderDraftName_mem) directory.path

theorem lift_ok {α : Type} {outcome : Except FileError α × FileSystem} {value : α}
    (h : lift outcome = (.ok value, after)) : outcome = (.ok value, after) := by
  obtain ⟨result, files⟩ := outcome
  cases result with
  | ok found =>
    exact Prod.ext (congrArg Except.ok (Except.ok.inj (Prod.mk.inj h).1)) (Prod.mk.inj h).2
  | error fault => cases (Prod.mk.inj h).1

theorem lift_error {α : Type} {outcome : Except FileError α × FileSystem} {error : StoreError}
    (h : lift outcome = (.error error, after)) :
    ∃ fault, error = .io (.file fault) ∧ outcome = (.error fault, after) := by
  obtain ⟨result, files⟩ := outcome
  cases result with
  | ok found => cases (Prod.mk.inj h).1
  | error fault =>
    obtain ⟨herror, rfl⟩ := Prod.mk.inj h
    exact ⟨fault, (Except.error.inj herror).symm, rfl⟩

/-- Making the directory leaves all files. -/
theorem ensure_cases (h : files.WellFormed) {create : Bool} {result : Except StoreError Unit}
    (hensure : ensure files path create = (result, after)) :
    files.Becomes after files.stored? ∧ ∀ error, result = .error error → ¬error.IsOfJournal := by
  unfold ensure at hensure
  split at hensure
  · obtain ⟨rfl, rfl⟩ := Prod.mk.inj hensure
    exact ⟨h.refl, nofun⟩
  · split at hensure
    · have hmade := FileSystem.becomes_makeDirectories h path
      cases result with
      | ok done =>
        rw [lift_ok hensure] at hmade
        exact ⟨hmade, nofun⟩
      | error error =>
        obtain ⟨fault, rfl, hmake⟩ := lift_error hensure
        rw [hmake] at hmade
        refine ⟨hmade, ?_⟩
        rintro _ ⟨⟩
        exact not_false
    · obtain ⟨rfl, rfl⟩ := Prod.mk.inj hensure
      refine ⟨h.refl, ?_⟩
      rintro _ ⟨⟩
      exact not_false

theorem takeLock_cases (h : files.WellFormed) {result : Except StoreError Directory}
    (htake : takeLock files path = (result, after)) :
    (∃ error found, result = .error error ∧ ¬error.IsOfJournal ∧
      files.Becomes after (update files.stored? (path.names ++ [lockName]) found)) ∨
    (∃ lock bytes, result = .ok ⟨path, lock⟩ ∧ files.Becomes after
      (update files.stored? (path.names ++ [lockName]) (some (lock, bytes)))) := by
  unfold takeLock at htake
  rcases hopen : lift (files.openFile (path.child lockName)) with ⟨opening, opened⟩
  rw [hopen] at htake
  cases opening with
  | error error =>
    obtain ⟨rfl, rfl⟩ := Prod.mk.inj htake
    obtain ⟨fault, rfl, hfault⟩ := lift_error hopen
    obtain rfl := FileSystem.openFile_error hfault
    exact .inl ⟨_, _, rfl, not_false, h.refl.update_self _⟩
  | ok lock =>
    have hopened := FileSystem.becomes_openFile h (lift_ok hopen)
    rw [Path.names_child (plain lockName_mem)] at hopened
    simp only at htake
    split at htake
    · next locked hlock =>
      obtain ⟨rfl, rfl⟩ := Prod.mk.inj htake
      have hlocked := FileSystem.becomes_tryLock hopened.wellFormed hlock
      rw [hopened.view] at hlocked
      exact .inr ⟨lock, _, rfl, hopened.trans hlocked⟩
    · obtain ⟨rfl, rfl⟩ := Prod.mk.inj htake
      exact .inl ⟨_, _, rfl, not_false, hopened⟩

/-- Taking a directory changes no file but its `LOCK`. -/
theorem acquire_cases (h : files.WellFormed) {create : Bool} {result : Except StoreError Directory}
    (hacquire : acquire files path create = (result, after)) :
    (∃ error found, result = .error error ∧ ¬error.IsOfJournal ∧
      files.Becomes after (update files.stored? (path.names ++ [lockName]) found)) ∨
    (∃ lock bytes, result = .ok ⟨path, lock⟩ ∧ after.isDirectory path = true ∧ files.Becomes after
      (update files.stored? (path.names ++ [lockName]) (some (lock, bytes)))) := by
  unfold acquire at hacquire
  rcases hensure : ensure files path create with ⟨ensuring, ensured⟩
  obtain ⟨hensured, herror⟩ := ensure_cases h hensure
  rw [hensure] at hacquire
  cases ensuring with
  | error error =>
    obtain ⟨rfl, rfl⟩ := Prod.mk.inj hacquire
    exact .inl ⟨error, _, rfl, herror error rfl, hensured.update_self _⟩
  | ok done =>
    simp only at hacquire
    split at hacquire
    · next hdirectory =>
      rcases takeLock_cases hensured.wellFormed hacquire with
        ⟨error, found, rfl, hother, htaken⟩ | ⟨lock, bytes, rfl, htaken⟩
      · rw [hensured.view] at htaken
        exact .inl ⟨error, found, rfl, hother, hensured.trans htaken⟩
      · rw [hensured.view] at htaken
        exact .inr ⟨lock, bytes, rfl, htaken.isDirectory hdirectory, hensured.trans htaken⟩
    · obtain ⟨rfl, rfl⟩ := Prod.mk.inj hacquire
      exact .inl ⟨_, _, rfl, not_false, hensured.update_self _⟩

/-- The line that the name of an order is stored as. -/
def orderLine (name : String) : Bytes := Text.Utf8.encode name ++ [10]

theorem decode?_orderLine (name : String) :
    Text.Utf8.decode? (orderLine name) = some (name ++ "\n") := by
  have hline : orderLine name = Text.Utf8.encode (name ++ "\n") := by
    unfold orderLine Text.Utf8.encode
    rw [String.toList_append, List.flatMap_append]
    rfl
  rw [hline, Text.Utf8.decode?_encode]

/-- White space is taken off the end, the line's own end with it. -/
theorem trimEnd_line (name : String) : Text.trimEnd (name ++ "\n") = Text.trimEnd name := by
  unfold Text.trimEnd
  rw [String.toList_append, List.reverse_append]
  rfl

theorem trimEnd_trimEnd (text : String) : Text.trimEnd (Text.trimEnd text) = Text.trimEnd text := by
  unfold Text.trimEnd
  rw [String.toList_ofList, List.reverse_reverse, List.dropWhile_idempotent]

/-- The order file holds a text that is this name up to white space at its end. -/
def Binds (files : FileSystem) (path : Path) (name : String) : Prop :=
  ∃ bytes text, files.file? (path.names ++ [orderName]) = some bytes ∧
    Text.Utf8.decode? bytes = some text ∧ Text.trimEnd text = name

theorem Binds.congr {name : String} (h : Binds files path name)
    (hsame : after.file? (path.names ++ [orderName]) = files.file? (path.names ++ [orderName])) :
    Binds after path name := by
  obtain ⟨bytes, text, hfile, htext, hname⟩ := h
  exact ⟨bytes, text, hsame.trans hfile, htext, hname⟩

theorem loadOrderName_cases (hdirectory : files.isDirectory directory.path = true) :
    (∃ error, directory.loadOrderName files = .error (.io error)) ∨
    (directory.loadOrderName files = .ok none ∧
      FileSystem.pathFault? directory.orderPath = none ∧
      files.lookup (directory.path.names ++ [orderName]) = none) ∨
    (∃ name, directory.loadOrderName files = .ok (some name) ∧
      FileSystem.pathFault? directory.orderPath = none ∧ Binds files directory.path name) := by
  unfold loadOrderName
  rcases hread : files.read directory.orderPath with error | bytes
  · by_cases hmissing : error = .notFound
    · subst hmissing
      exact .inr (.inl ⟨rfl,
        FileSystem.lookup_of_read_notFound (plain orderName_mem) hdirectory hread⟩)
    · refine .inl ⟨.file error, ?_⟩
      cases error <;> first | rfl | exact absurd rfl hmissing
  · obtain ⟨hpath, hfile⟩ := FileSystem.file?_of_read hread
    rw [names_orderPath] at hfile
    simp only
    cases htext : Text.Utf8.decode? bytes with
    | none => exact .inl ⟨_, rfl⟩
    | some text => exact .inr (.inr ⟨_, rfl, hpath, bytes, text, hfile, htext, rfl⟩)

/-- Storing the name goes by way of a draft and ends with the line in the order file. -/
theorem saveOrderName_cases (h : files.WellFormed) {name : String}
    {result : Except StoreError Unit}
    (hsave : directory.saveOrderName files name = (result, after)) :
    (∃ error found, result = .error (.io error) ∧
      files.Becomes after (update files.stored? (directory.path.names ++ [orderDraftName]) found)) ∨
    (∃ id, result = .ok () ∧ files.Becomes after
      (update (update files.stored? (directory.path.names ++ [orderDraftName]) none)
        (directory.path.names ++ [orderName]) (some (id, orderLine name)))) := by
  unfold saveOrderName at hsave
  rcases hwrite : lift (files.write directory.orderDraftPath (orderLine name)) with
    ⟨writing, drafted⟩
  rw [show Text.Utf8.encode name ++ [10] = orderLine name from rfl, hwrite] at hsave
  cases writing with
  | error error =>
    obtain ⟨rfl, rfl⟩ := Prod.mk.inj hsave
    obtain ⟨fault, rfl, hfault⟩ := lift_error hwrite
    obtain rfl := FileSystem.write_error hfault
    exact .inl ⟨_, _, rfl, h.refl.update_self _⟩
  | ok done =>
    obtain ⟨id, hdrafted⟩ := FileSystem.becomes_write h (lift_ok hwrite)
    rw [names_orderDraftPath] at hdrafted
    simp only at hsave
    cases result with
    | error error =>
      obtain ⟨fault, rfl, hfault⟩ := lift_error hsave
      obtain rfl := FileSystem.rename_error hfault
      exact .inl ⟨_, _, rfl, hdrafted⟩
    | ok done =>
      have hrenamed := FileSystem.becomes_rename hdrafted.wellFormed (lift_ok hsave)
      rw [names_orderDraftPath, names_orderPath, hdrafted.view, Function.update_self,
        Function.update_idem] at hrenamed
      exact .inr ⟨id, rfl, hdrafted.trans hrenamed⟩

end Directory

namespace Database

open Directory (lockName journalName orderName orderDraftName plain Binds orderLine)

variable {files after : FileSystem} {directory : Directory} {settings : Settings}

/-- A directory is bound already or it is bound now; a failure leaves the order file. -/
theorem bindOrder_cases (h : files.WellFormed)
    (hdirectory : files.isDirectory directory.path = true) {result : Except StoreError Unit}
    (hbind : bindOrder settings directory files = (result, after)) :
    (∃ error found, result = .error error ∧ ¬error.IsOfJournal ∧
      files.Becomes after (update files.stored? (directory.path.names ++ [orderDraftName]) found)) ∨
    (result = .ok () ∧ FileSystem.pathFault? directory.orderPath = none ∧
      ((after = files ∧ Binds files directory.path settings.keyOrder.name) ∨
        (files.lookup (directory.path.names ++ [orderName]) = none ∧
          ∃ id, files.Becomes after
            (update (update files.stored? (directory.path.names ++ [orderDraftName]) none)
              (directory.path.names ++ [orderName])
              (some (id, orderLine settings.keyOrder.name)))))) := by
  have hsame := h.refl.update_self (directory.path.names ++ [orderDraftName])
  unfold bindOrder at hbind
  rcases directory.loadOrderName_cases hdirectory with
    ⟨error, hload⟩ | ⟨hload, hpath, habsent⟩ | ⟨stored, hload, hpath, hbinds⟩
  · rw [hload] at hbind
    obtain ⟨rfl, rfl⟩ := Prod.mk.inj hbind
    exact .inl ⟨_, _, rfl, not_false, hsame⟩
  · rw [hload] at hbind
    rcases directory.saveOrderName_cases h hbind with
      ⟨error, found, rfl, hdraft⟩ | ⟨id, rfl, hsaved⟩
    · exact .inl ⟨_, found, rfl, not_false, hdraft⟩
    · exact .inr ⟨rfl, hpath, .inr ⟨habsent, id, hsaved⟩⟩
  · rw [hload] at hbind
    simp only at hbind
    split at hbind
    · next heq =>
      obtain ⟨rfl, rfl⟩ := Prod.mk.inj hbind
      exact .inr ⟨rfl, hpath, .inl ⟨rfl, heq ▸ hbinds⟩⟩
    · obtain ⟨rfl, rfl⟩ := Prod.mk.inj hbind
      exact .inl ⟨_, _, rfl, not_false, hsame⟩

/-- What is known of a directory once it is bound to the order of the settings. -/
structure Bound (settings : Settings) (path : Path) (files bound : FileSystem) : Prop where
  wellFormed : bound.WellFormed
  isDirectory : bound.isDirectory path = true
  followed : FileSystem.pathFault? (path.child orderName) = none
  others : ∀ names, names ≠ path.names ++ [orderName] → names ≠ path.names ++ [orderDraftName] →
    bound.stored? names = files.stored? names
  /-- An order file that was there has not been touched. -/
  order : bound.file? (path.names ++ [orderName]) =
    some ((files.file? (path.names ++ [orderName])).getD (orderLine settings.keyOrder.name))
  binds : Binds bound path (Text.trimEnd settings.keyOrder.name)

theorem bindOrder_ok {bound : FileSystem} (h : files.WellFormed)
    (hdirectory : files.isDirectory directory.path = true)
    (hbind : bindOrder settings directory files = (.ok (), bound)) :
    Bound settings directory.path files bound := by
  rcases bindOrder_cases h hdirectory hbind with ⟨_, _, hresult, -⟩ |
    ⟨-, hpath, ⟨rfl, hbinds⟩ | ⟨habsent, id, hbound⟩⟩
  · cases hresult
  · obtain ⟨bytes, text, hfile, htext, hname⟩ := hbinds
    refine ⟨h, hdirectory, hpath, fun _ _ _ => rfl, ?_, bytes, text, hfile, htext, ?_⟩
    · rw [hfile, Option.getD_some]
    · rw [← hname, Directory.trimEnd_trimEnd]
  · have hentry := congrFun hbound.view (directory.path.names ++ [orderName])
    rw [Function.update_self] at hentry
    have hfile := FileSystem.file?_of_stored? hentry
    refine ⟨hbound.wellFormed, hbound.isDirectory hdirectory, hpath, fun names horder hdraft => ?_,
      ?_, _, _, hfile, Directory.decode?_orderLine _, Directory.trimEnd_line _⟩
    · rw [hbound.view, Function.update_of_ne horder, Function.update_of_ne hdraft]
    · rw [hfile, FileSystem.file?_of_none habsent, Option.getD_none]

theorem Bound.journal {path : Path} {bound : FileSystem} (h : Bound settings path files bound) :
    bound.file? (path.names ++ [journalName]) = files.file? (path.names ++ [journalName]) := by
  unfold FileSystem.file?
  rw [h.others _ (Directory.entry_ne _ (by decide)) (Directory.entry_ne _ (by decide))]

/-- The directory of the journal is there, so none is made. -/
theorem openWithDirectories_journal (hdirectory : files.isDirectory directory.path = true) :
    FileLog.openWithDirectories files directory.journalPath =
      FileLog.openAt files directory.journalPath := by
  unfold FileLog.openWithDirectories
  split
  · rfl
  · next parent hparent =>
    have habove :=
      FileSystem.isDirectory_parent (plain Directory.journalName_mem) hdirectory hparent
    rw [FileSystem.makeDirectories_of_isDirectory habove]

theorem becomes_openJournal {opened : FileSystem} {log : OpenLog} (h : files.WellFormed)
    (hopen : FileLog.openAt files directory.journalPath = (.ok log, opened)) :
    files.Becomes opened (update files.stored? (directory.path.names ++ [journalName])
      (some (log.file, (files.file? (directory.path.names ++ [journalName])).getD []))) := by
  have hopened := FileSystem.becomes_openFile h (FileLog.openAt_ok hopen).1
  rw [Directory.names_journalPath] at hopened
  exact hopened

/-- Recovering from a file keeps the intact frames, or leaves the file. -/
theorem recover_backed (path : Path) {file : FileId} (hfile : file < files.contents.length)
    (id : Nat) (settings : Settings) (directory : Option Directory) (bytes : Bytes) :
    recover id settings directory (FileLog.backed files path file ⟨bytes⟩) =
      match replayed settings.paranoidChecks bytes with
      | .error error => (.error error, FileLog.backed files path file ⟨bytes⟩)
      | .ok result =>
        (.ok (restored id settings directory result),
          FileLog.backed files path file ⟨Frame.encodeAll (Frame.payloads bytes)⟩) := by
  have hreliable : Reliable fun device bytes => device = FileLog.backed files path file ⟨bytes⟩ :=
    FileLog.reliable_backed hfile
  cases hresult : replayed settings.paranoidChecks bytes with
  | error error =>
    obtain ⟨herror, hafter⟩ := recover_error hreliable rfl hresult id directory
    exact Prod.ext herror hafter
  | ok result =>
    obtain ⟨_, rfl, hrecover⟩ := recover_ok hreliable rfl hresult id directory
    exact hrecover

/-- All that the opening of a locked directory can come to. -/
inductive LockedOpening (id : Nat) (settings : Settings) (directory : Directory)
    (files : FileSystem) : Except StoreError (Database × OpenLog) × FileSystem → Prop where
  | unwanted {error : StoreError}
      (hpresence : checkPresence settings directory files = .error error) :
      LockedOpening id settings directory files (.error error, files)
  | unbound {error : StoreError} {after : FileSystem}
      (hbind : bindOrder settings directory files = (.error error, after)) :
      LockedOpening id settings directory files (.error error, after)
  | unopened {bound : FileSystem} {fault : DeviceError}
      (hbind : bindOrder settings directory files = (.ok (), bound))
      (hopen : FileLog.openAt bound directory.journalPath = (.error fault, bound)) :
      LockedOpening id settings directory files (.error (.device fault), bound)
  | refused {bound opened : FileSystem} {log : OpenLog} {error : StoreError}
      (hbind : bindOrder settings directory files = (.ok (), bound))
      (hopen : FileLog.openAt bound directory.journalPath = (.ok log, opened))
      (hreplayed : replayed settings.paranoidChecks
        ((bound.file? (directory.path.names ++ [journalName])).getD []) = .error error) :
      LockedOpening id settings directory files (.error error, opened)
  | opened {bound opened : FileSystem} {log : OpenLog} {result : Replayed} {device : FileLog}
      (hbind : bindOrder settings directory files = (.ok (), bound))
      (hopen : FileLog.openAt bound directory.journalPath = (.ok log, opened))
      (hreplayed : replayed settings.paranoidChecks
        ((bound.file? (directory.path.names ++ [journalName])).getD []) = .ok result)
      (hdevice : device = FileLog.backed opened directory.journalPath log.file
        ⟨Frame.encodeAll (Frame.payloads
          ((bound.file? (directory.path.names ++ [journalName])).getD []))⟩) :
      LockedOpening id settings directory files
        (.ok (restored id settings (some directory) result, device.log), device.files)

theorem openLocked_outcome (h : files.WellFormed)
    (hdirectory : files.isDirectory directory.path = true) (id : Nat) (settings : Settings) :
    LockedOpening id settings directory files (openLocked id settings directory files) := by
  unfold openLocked
  cases hpresence : checkPresence settings directory files with
  | error error => exact .unwanted hpresence
  | ok done =>
    rcases hbind : bindOrder settings directory files with ⟨binding, bound⟩
    cases binding with
    | error error => exact .unbound hbind
    | ok done =>
      have hbound := bindOrder_ok h hdirectory hbind
      simp only [openWithDirectories_journal hbound.isDirectory]
      rcases hopen : FileLog.openAt bound directory.journalPath with ⟨opening, opened⟩
      cases opening with
      | error fault =>
        obtain rfl := FileLog.openAt_error hopen
        exact .unopened hbind hopen
      | ok log =>
        obtain ⟨hdevice, hfile⟩ := FileLog.openAt_backed hbound.wellFormed hopen
        rw [Directory.names_journalPath] at hdevice
        have hrecover := recover_backed directory.journalPath hfile id settings
          (some directory) ((bound.file? (directory.path.names ++ [journalName])).getD [])
        simp only [hdevice, hrecover]
        cases hreplayed : replayed settings.paranoidChecks
          ((bound.file? (directory.path.names ++ [journalName])).getD []) with
        | error error =>
          simp only [Except.map, ← hdevice]
          exact .refused hbind hopen hreplayed
        | ok result => exact .opened hbind hopen hreplayed rfl

/-- All that the opening of a directory can come to: it gets as far as the lock or not. -/
inductive DirectoryOpening (id : Nat) (settings : Settings) (path : Path)
    (files : FileSystem) : Except StoreError (Database × OpenLog) × FileSystem → Prop where
  | invalid {fault : SettingsFault} (hinvalid : settings.fault? = some fault) :
      DirectoryOpening id settings path files
        (.error (.invalidArgument (.settings fault)), files)
  | untaken {error : StoreError} {after : FileSystem} {found : Option (FileId × Bytes)}
      (hother : ¬error.IsOfJournal)
      (htaken : files.Becomes after
        (update files.stored? (path.names ++ [lockName]) found)) :
      DirectoryOpening id settings path files (.error error, after)
  | taken {lock : FileId} {bytes : Bytes} {taken left : FileSystem}
      {result : Except StoreError (Database × OpenLog)}
      (hdirectory : taken.isDirectory path = true)
      (htaken : files.Becomes taken
        (update files.stored? (path.names ++ [lockName]) (some (lock, bytes))))
      (hlocked : openLocked id settings ⟨path, lock⟩ taken = (result, left)) :
      DirectoryOpening id settings path files
        (result, if result.isOk then left else left.unlock lock)

theorem openDirectory_outcome (h : files.WellFormed) (id : Nat) (settings : Settings)
    (path : Path) :
    DirectoryOpening id settings path files (openDirectory id settings files path) := by
  unfold openDirectory
  cases hvalid : settings.fault? with
  | some fault => exact .invalid hvalid
  | none =>
    rcases hacquire : Directory.acquire files path settings.createIfMissing with
      ⟨acquiring, taken⟩
    rcases Directory.acquire_cases h hacquire with
      ⟨_, _, rfl, hother, htaken⟩ | ⟨lock, _, rfl, hdirectory, htaken⟩
    · exact .untaken hother htaken
    · simp only
      rcases hlocked : openLocked id settings ⟨path, lock⟩ taken with ⟨result, left⟩
      cases result with
      | error fault => exact .taken hdirectory htaken hlocked
      | ok opened => exact .taken hdirectory htaken hlocked

end Database

end BatchStore
