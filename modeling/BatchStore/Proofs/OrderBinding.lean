import BatchStore.Host
import BatchStore.Proofs.Directories
import BatchStore.Proofs.LoggedCalls

/-!
# Bound to an order

A directory stays bound to the order that its database was created with: whatever is
done with the database, when it has been given up the directory opens for the name
that is stored and for no other. What is stored is a line, and it is read back without
the white space at its end; so the name that counts is the given one without it.
-/

namespace BatchStore

open Function (update)
open LogDevice (Reliable)
open Directory (lockName journalName orderName orderDraftName plain entry_ne Binds)

/-- Gives up a database: it is closed as far as that succeeds, and the lock of its
directory is given back. -/
def Session.drop (session : Session FileLog) : FileSystem :=
  let (_, _, log) := session.database.close session.log
  match session.database.directory with
  | some directory => directory.release log.files
  | none => log.files

/-- A database stands in this directory: its files are there, and the order file names
this order. -/
structure Directory.Stands (files : FileSystem) (directory : Directory) (file : FileId)
    (name : String) : Prop where
  wellFormed : files.WellFormed
  isDirectory : files.isDirectory directory.path = true
  followed : FileSystem.pathFault? directory.orderPath = none
  lock : files.lookup (directory.path.names ++ [lockName]) = some (.file directory.lock)
  journal : files.lookup (directory.path.names ++ [journalName]) = some (.file file)
  binds : Binds files directory.path name

namespace Directory.Stands

variable {files : FileSystem} {directory : Directory} {file : FileId} {name : String}

/-- The paths of the shorter names can be followed as well. -/
theorem pathFault?_child (h : Stands files directory file name) {other : String}
    (hother : other ∈ fileNames) (hle : other.utf8ByteSize ≤ orderName.utf8ByteSize) :
    FileSystem.pathFault? (directory.path.child other) = none :=
  FileSystem.pathFault?_child (plain hother) hle h.followed

/-- What is written to the journal does not touch the order. -/
theorem setContent (h : Stands files directory file name) (bytes : Bytes) :
    Stands (files.setContent file bytes) directory file name := by
  have hset := FileSystem.becomes_setContent h.wellFormed h.journal bytes
  exact ⟨hset.wellFormed, hset.isDirectory h.isDirectory, h.followed, h.lock, h.journal,
    h.binds.congr (hset.file?_of_ne (entry_ne _ (by decide)))⟩

/-- What is locked does not matter to it. -/
theorem relocked (h : Stands files directory file name) (locked : List FileId) :
    Stands { files with locked } directory file name :=
  have hlocked : files.Becomes { files with locked } files.stored? :=
    FileSystem.becomes_of_eq h.wellFormed rfl rfl
  ⟨hlocked.wellFormed, hlocked.isDirectory h.isDirectory, h.followed, h.lock, h.journal,
    h.binds⟩

end Directory.Stands

namespace Database

variable {files : FileSystem} {directory : Directory} {file : FileId} {name : String}
  {settings later : Settings}

open Directory (Stands)

/-- Its directory can be taken when the lock is free. -/
theorem acquire_stands (h : Stands files directory file name)
    (hfree : directory.lock ∉ files.locked) (create : Bool) :
    Directory.acquire files directory.path create =
      (.ok directory, { files with locked := directory.lock :: files.locked }) := by
  have hthere : files.exists? directory.path = true := by
    have hdirectory := h.isDirectory
    unfold FileSystem.isDirectory at hdirectory
    unfold FileSystem.exists?
    rw [of_decide_eq_true hdirectory]
    rfl
  have hopen := FileSystem.openFile_child (plain Directory.lockName_mem) h.isDirectory
    (h.pathFault?_child Directory.lockName_mem (by decide)) h.lock
  have hlock : files.tryLock directory.lock =
      some { files with locked := directory.lock :: files.locked } := if_neg hfree
  unfold Directory.acquire Directory.ensure
  rw [if_pos hthere]
  simp only [h.isDirectory, if_true]
  unfold Directory.takeLock
  rw [hopen]
  simp only [Directory.lift, hlock]

theorem loadOrderName_stands (h : Stands files directory file name) :
    directory.loadOrderName files = .ok (some name) := by
  obtain ⟨bytes, text, hfile, htext, hname⟩ := h.binds
  have hread : files.read directory.orderPath = .ok bytes :=
    FileSystem.read_child (plain Directory.orderName_mem) h.isDirectory h.followed hfile
  unfold Directory.loadOrderName
  simp only [hread, htext, hname]

theorem checkPresence_stands (h : Stands files directory file name)
    (hexists : settings.errorIfExists = false) :
    checkPresence settings directory files = .ok () := by
  have hthere : files.exists? directory.journalPath = true := by
    unfold FileSystem.exists? FileSystem.find? Directory.journalPath
    rw [FileSystem.locate_child (plain Directory.journalName_mem) h.isDirectory
      (h.pathFault?_child Directory.journalName_mem (by decide)), h.journal]
    rfl
  unfold checkPresence Directory.isNew
  rw [hthere, hexists]
  rfl

theorem openAt_stands (h : Stands files directory file name) :
    FileLog.openAt files directory.journalPath =
      (.ok ⟨directory.journalPath, file, (files.content file).length⟩, files) :=
  FileLog.openAt_found (FileSystem.openFile_child (plain Directory.journalName_mem) h.isDirectory
    (h.pathFault?_child Directory.journalName_mem (by decide)) h.journal)

theorem bindOrder_stands (h : Stands files directory file name) (settings : Settings) :
    bindOrder settings directory files =
      (if settings.keyOrder.name = name then .ok ()
        else .error (.invalidArgument (.orderMismatch settings.keyOrder.name name)), files) := by
  unfold bindOrder
  simp only [loadOrderName_stands h]
  by_cases hname : settings.keyOrder.name = name
  · rw [if_pos hname.symm, if_pos hname]
  · rw [if_neg (Ne.symm hname), if_neg hname]

/-- It opens for the order that is stored, as its journal gives it, and for no other. -/
theorem openLocked_stands (h : Stands files directory file name)
    (hexists : settings.errorIfExists = false) (id : Nat) :
    (openLocked id settings directory files).1.map Prod.fst =
      if settings.keyOrder.name = name then
        (replayed settings.paranoidChecks (files.content file)).map
          (restored id settings (some directory))
      else .error (.invalidArgument (.orderMismatch settings.keyOrder.name name)) := by
  have hcontent : files.file? (directory.path.names ++ [journalName]) = some (files.content file) :=
    FileSystem.file?_of_stored? (FileSystem.stored?_of_file h.journal)
  have hpresent := checkPresence_stands h hexists
  have hbinding := bindOrder_stands h settings
  have houtcome := openLocked_outcome h.wellFormed h.isDirectory id settings
  by_cases hname : settings.keyOrder.name = name
  · rw [if_pos hname] at hbinding ⊢
    generalize openLocked id settings directory files = outcome at houtcome ⊢
    cases houtcome with
    | unwanted hpresence => cases hpresence.symm.trans hpresent
    | unbound hbind => cases hbind.symm.trans hbinding
    | unopened hbind hopen =>
      obtain rfl := (Prod.mk.inj (hbind.symm.trans hbinding)).2
      cases hopen.symm.trans (openAt_stands h)
    | refused hbind _ hreplayed =>
      obtain rfl := (Prod.mk.inj (hbind.symm.trans hbinding)).2
      rw [hcontent, Option.getD_some] at hreplayed
      rw [hreplayed]
      rfl
    | opened hbind _ hreplayed =>
      obtain rfl := (Prod.mk.inj (hbind.symm.trans hbinding)).2
      rw [hcontent, Option.getD_some] at hreplayed
      rw [hreplayed]
      rfl
  · rw [if_neg hname] at hbinding ⊢
    unfold openLocked
    rw [hpresent, hbinding]
    rfl

theorem openDirectory_stands (h : Stands files directory file name)
    (hfree : directory.lock ∉ files.locked) (hvalid : settings.fault? = none)
    (hexists : settings.errorIfExists = false) (id : Nat) :
    (openDirectory id settings files directory.path).1.map Prod.fst =
      if settings.keyOrder.name = name then
        (replayed settings.paranoidChecks (files.content file)).map
          (restored id settings (some directory))
      else .error (.invalidArgument (.orderMismatch settings.keyOrder.name name)) := by
  have hlocked := openLocked_stands (h.relocked (directory.lock :: files.locked)) hexists id
  unfold openDirectory
  rw [hvalid]
  simp only [acquire_stands h hfree]
  rcases hopen : openLocked id settings directory
    { files with locked := directory.lock :: files.locked } with ⟨result, after⟩
  rw [hopen] at hlocked
  cases result with
  | error error => exact hlocked
  | ok opened => exact hlocked

/-- It opens for one name, unless paranoid checks refuse its journal; any other name is
an invalid argument. -/
theorem opens_stands_iff (h : Stands files directory file name)
    (hfree : directory.lock ∉ files.locked) (hvalid : settings.fault? = none)
    (hexists : settings.errorIfExists = false) (id : Nat) :
    ((∃ opened, (openDirectory id settings files directory.path).1 = .ok opened) ↔
      settings.keyOrder.name = name ∧
        (settings.paranoidChecks = true → Acceptable (files.content file))) ∧
    (settings.keyOrder.name ≠ name →
      (openDirectory id settings files directory.path).1 =
        .error (.invalidArgument (.orderMismatch settings.keyOrder.name name))) := by
  have hresult := openDirectory_stands h hfree hvalid hexists id
  have hintact := replayed_ok_iff settings.paranoidChecks (files.content file)
  generalize (openDirectory id settings files directory.path).1 = result at hresult
  by_cases hname : settings.keyOrder.name = name
  · rw [if_pos hname] at hresult
    refine ⟨?_, fun hne => absurd hname hne⟩
    rw [← hintact]
    cases hreplayed : replayed settings.paranoidChecks (files.content file) with
    | error error =>
      rw [hreplayed] at hresult
      cases result with
      | error _ => simp
      | ok opened => cases hresult
    | ok state =>
      rw [hreplayed] at hresult
      cases result with
      | error _ => cases hresult
      | ok opened => simp [hname]
  · rw [if_neg hname] at hresult
    cases result with
    | error error =>
      obtain rfl := Except.error.inj hresult
      exact ⟨⟨fun ⟨_, hok⟩ => (nomatch hok), fun hboth => absurd hboth.1 hname⟩, fun _ => rfl⟩
    | ok opened => cases hresult

/-- Opening leaves a database standing, bound to the order of its settings, with a log
that is in memory but for the file that it lies in. -/
theorem stands_of_openLocked (directory : Directory) {id : Nat} {db : Database} {log : OpenLog}
    {created : FileSystem}
    (h : files.WellFormed) (hdirectory : files.isDirectory directory.path = true) {held : Bytes}
    (hlock : files.stored? (directory.path.names ++ [lockName]) = some (directory.lock, held))
    (hopen : openLocked id settings directory files = (.ok (db, log), created)) :
    db.directory = some directory ∧
      Stands created directory log.file (Text.trimEnd settings.keyOrder.name) ∧
      ∃ memory, (⟨created, log⟩ : FileLog) =
        FileLog.backed created directory.journalPath log.file memory := by
  have houtcome := openLocked_outcome h hdirectory id settings
  rw [hopen] at houtcome
  generalize hresult : ((Except.ok (db, log) : Except StoreError (Database × OpenLog)), created) =
    outcome at houtcome
  cases houtcome with
  | unwanted | unbound | unopened | refused => cases (Prod.mk.inj hresult).1
  | @opened bound opened found _ _ hbind hjournal _ hdevice =>
    obtain ⟨hok, rfl⟩ := Prod.mk.inj hresult
    obtain ⟨rfl, rfl⟩ := Prod.mk.inj (Except.ok.inj hok)
    have hbound := bindOrder_ok h hdirectory hbind
    have hopened := becomes_openJournal hbound.wellFormed hjournal
    have hfile := congrFun hopened.view (directory.path.names ++ [journalName])
    have hheld := congrFun hopened.view (directory.path.names ++ [lockName])
    rw [Function.update_self] at hfile
    rw [Function.update_of_ne (entry_ne _ (by decide)),
      hbound.others _ (entry_ne _ (by decide)) (entry_ne _ (by decide)), hlock] at hheld
    have hstands : Stands opened directory found.file (Text.trimEnd settings.keyOrder.name) :=
      ⟨hopened.wellFormed, hopened.isDirectory hbound.isDirectory, hbound.followed,
        (FileSystem.lookup_of_stored? hheld).1, (FileSystem.lookup_of_stored? hfile).1,
        hbound.binds.congr (hopened.file?_of_ne (entry_ne _ (by decide)))⟩
    obtain ⟨memory, hmemory⟩ : ∃ memory, _ = FileLog.backed opened _ found.file memory :=
      ⟨_, hdevice⟩
    rw [hmemory]
    exact ⟨rfl, hstands.setContent memory.bytes, memory, (FileLog.backed_backed _ _ _ _ _).symm⟩

theorem stands_of_openDirectory {id : Nat} {path : Path} {db : Database} {log : OpenLog}
    {created : FileSystem} (h : files.WellFormed)
    (hopen : openDirectory id settings files path = (.ok (db, log), created)) :
    ∃ lock memory, db.directory = some ⟨path, lock⟩ ∧
      Stands created ⟨path, lock⟩ log.file (Text.trimEnd settings.keyOrder.name) ∧
      (⟨created, log⟩ : FileLog) =
        FileLog.backed created (path.child journalName) log.file memory := by
  have houtcome := openDirectory_outcome h id settings path
  rw [hopen] at houtcome
  cases houtcome with
  | @taken lock _ _ _ _ hdirectory htaken hlocked =>
    have hheld := congrFun htaken.view (path.names ++ [lockName])
    rw [Function.update_self] at hheld
    obtain ⟨hbelongs, hstands, memory, hmemory⟩ :=
      stands_of_openLocked ⟨path, lock⟩ htaken.wellFormed hdirectory hheld hlocked
    exact ⟨lock, memory, hbelongs, hstands, hmemory⟩

end Database

namespace Session

section Directory

variable {δ : Type} [LogDevice δ]

/-- A database stays in its directory. -/
theorem directory_step (session : Session δ) (action : Action) :
    (session.step action).2.database.directory = session.database.directory := by
  have hwrite : ∀ settings batch, (session.write settings batch).2.database.directory =
      session.database.directory := by
    intro settings batch
    have houtcome := Database.write_outcome session.database session.log settings batch
    unfold write
    generalize session.database.write session.log settings batch = written at houtcome ⊢
    cases houtcome <;> rfl
  cases action with
  | write settings batch => exact hwrite settings batch
  | put settings key value => exact hwrite settings _
  | delete settings key => exact hwrite settings _
  | merge settings key operand => exact hwrite settings _
  | takeSnapshot =>
    unfold step takeSnapshot
    cases hopen : session.database.isOpen with
    | true => rw [Database.takeSnapshot_open hopen]
    | false => rw [Database.takeSnapshot_closed hopen]
  | shareSnapshot number => rfl
  | dropSnapshot number =>
    show (session.dropSnapshot number).database.directory = _
    unfold dropSnapshot
    split
    · rfl
    · simp only
      split <;> rfl
  | close =>
    obtain ⟨isOpen, hdatabase, -⟩ := session.database.close_effect session.log
    show (session.database.close session.log).2.1.directory = _
    rw [hdatabase]

theorem directory_run (session : Session δ) (actions : List Action) :
    (session.run actions).2.database.directory = session.database.directory := by
  induction actions generalizing session with
  | nil => rfl
  | cons action actions ih => exact (ih _).trans (directory_step session action)

end Directory

theorem drop_eq (session : Session FileLog) :
    session.drop =
      match session.database.directory with
      | some directory => directory.release session.log.files
      | none => session.log.files := by
  obtain ⟨-, -, hlog⟩ := session.database.close_effect session.log
  have hsame : (session.database.close session.log).2.2 = session.log := by
    rcases hlog with hsame | hsynced
    · exact hsame
    · exact hsynced
  unfold drop
  simp only [hsame]

/-- Where a database stands, it still does after any session and when it has been given
up; the lock is free then, and the journal holds what the session left. -/
theorem stands_dropped (session : Session FileLog) {directory : Directory} {file : FileId}
    {name : String} {memory : MemoryLog}
    (hbelongs : session.database.directory = some directory)
    (hstands : Directory.Stands session.log.files directory file name)
    (hlog : session.log = FileLog.backed session.log.files directory.journalPath file memory)
    (actions : List Action) :
    Directory.Stands (session.run actions).2.drop directory file name ∧
      directory.lock ∉ (session.run actions).2.drop.locked ∧
      (session.run actions).2.drop.content file = (session.run actions).2.log.bytes := by
  have hfile := hstands.wellFormed.stored hstands.journal
  have hreliable : Reliable fun device bytes =>
      device = FileLog.backed session.log.files directory.journalPath file ⟨bytes⟩ :=
    FileLog.reliable_backed hfile
  have hrun := holds_run_of_reliable hreliable actions hlog
  have hdrop := drop_eq (session.run actions).2
  rw [directory_run, hbelongs] at hdrop
  generalize (session.run actions).2.log = final at hrun hdrop
  rw [hdrop, hrun]
  refine ⟨(hstands.setContent _).relocked _, ?_, ?_⟩
  · intro hmem
    exact absurd rfl (of_decide_eq_true (List.mem_filter.mp hmem).2)
  · rw [FileLog.bytes_backed hfile]
    exact FileSystem.content_setContent hfile _

end Session

namespace Database

open Directory (Stands)

variable {files created : FileSystem} {path : Path} {id : Nat} {settings later : Settings}
  {db : Database} {log : OpenLog}

theorem stands_session (h : files.WellFormed)
    (hopen : openDirectory id settings files path = (.ok (db, log), created))
    (actions : List Action) :
    let session := ((Session.start db (⟨created, log⟩ : FileLog)).run actions).2
    ∃ lock, Stands session.drop ⟨path, lock⟩ log.file (Text.trimEnd settings.keyOrder.name) ∧
      lock ∉ session.drop.locked ∧ session.drop.content log.file = session.log.bytes := by
  obtain ⟨lock, memory, hbelongs, hstands, hlog⟩ := stands_of_openDirectory h hopen
  exact ⟨lock,
    Session.stands_dropped (Session.start db ⟨created, log⟩) hbelongs hstands hlog actions⟩

/-- The directory of a database that has been given up opens for one name of an order:
the one that it was created with, without the white space at its end. It does so unless
paranoid checks refuse the journal; any other name is an invalid argument. -/
theorem bound_to_order (h : files.WellFormed)
    (hopen : openDirectory id settings files path = (.ok (db, log), created))
    (actions : List Action) (hvalid : later.fault? = none) (hexists : later.errorIfExists = false)
    (again : Nat) :
    let session := ((Session.start db (⟨created, log⟩ : FileLog)).run actions).2
    let stored := Text.trimEnd settings.keyOrder.name
    ((∃ reopened, (openDirectory again later session.drop path).1 = .ok reopened) ↔
      later.keyOrder.name = stored ∧
        (later.paranoidChecks = true → Acceptable session.log.bytes)) ∧
    (later.keyOrder.name ≠ stored →
      (openDirectory again later session.drop path).1 =
        .error (.invalidArgument (.orderMismatch later.keyOrder.name stored))) := by
  intro session stored
  obtain ⟨lock, hstands, hfree, hcontent⟩ := stands_session h hopen actions
  have hopens := opens_stands_iff hstands hfree hvalid hexists again
  rw [hcontent] at hopens
  exact hopens

/-- A blank inside a name counts: the directory opens for `a b`, with what a session has
logged, and for `a` it does not. -/
theorem bound_to_order_with_blank_inside :
    let bound : Settings := { createIfMissing := true, order := some ⟨"a b", Ord.compare⟩ }
    let other : Settings := { order := some ⟨"a", Ord.compare⟩ }
    ∃ db log created, openDirectory 0 bound .empty ⟨["p"]⟩ = (.ok (db, log), created) ∧
      let session := ((Session.start db (⟨created, log⟩ : FileLog)).run [.put {} [97] [49]]).2
      (∃ reopened, (openDirectory 1 bound session.drop ⟨["p"]⟩).1 = .ok reopened) ∧
        (openDirectory 1 other session.drop ⟨["p"]⟩).1 =
          .error (.invalidArgument (.orderMismatch "a" "a b")) := by
  intro bound other
  have hopens : (openDirectory 0 bound .empty ⟨["p"]⟩).1.map (fun opened =>
      (replayed true ((Session.start opened.1 (⟨(openDirectory 0 bound .empty ⟨["p"]⟩).2,
        opened.2⟩ : FileLog)).run [.put {} [97] [49]]).2.log.bytes).isOk) = .ok true := by
    decide +kernel
  rcases hopen : openDirectory 0 bound .empty ⟨["p"]⟩ with ⟨result, created⟩
  rw [hopen] at hopens
  cases result with
  | error error => cases hopens
  | ok opened =>
    obtain ⟨db, log⟩ := opened
    refine ⟨db, log, created, rfl, ?_⟩
    intro session
    have hintact : Acceptable session.log.bytes := by
      refine (replayed_ok_iff true _).mp ?_ rfl
      have hok : (replayed true session.log.bytes).isOk = true := Except.ok.inj hopens
      cases hreplayed : replayed true session.log.bytes with
      | error error =>
        rw [hreplayed] at hok
        cases hok
      | ok state => exact ⟨state, rfl⟩
    have hstored : Text.trimEnd bound.keyOrder.name = "a b" := by decide +kernel
    obtain ⟨hsame, -⟩ := bound_to_order FileSystem.wellFormed_empty hopen [.put {} [97] [49]]
      (rfl : bound.fault? = none) rfl 1
    obtain ⟨-, hother⟩ := bound_to_order FileSystem.wellFormed_empty hopen [.put {} [97] [49]]
      (rfl : other.fault? = none) rfl 1
    rw [hstored] at hsame hother
    exact ⟨hsame.mpr ⟨rfl, fun _ => hintact⟩, hother (by decide)⟩

/-- A blank at the end of a name is lost: a database that was created with the order `a `
cannot be opened with it again, but with `a`. -/
theorem blank_at_end_unbound :
    let settings : Settings := { createIfMissing := true, order := some ⟨"a ", Ord.compare⟩ }
    let other : Settings := { paranoidChecks := false, order := some ⟨"a", Ord.compare⟩ }
    ∃ db log created, openDirectory 0 settings .empty ⟨["p"]⟩ = (.ok (db, log), created) ∧
      let dropped := (Session.start db (⟨created, log⟩ : FileLog)).drop
      (openDirectory 1 settings dropped ⟨["p"]⟩).1 =
          .error (.invalidArgument (.orderMismatch "a " "a")) ∧
        ∃ reopened, (openDirectory 1 other dropped ⟨["p"]⟩).1 = .ok reopened := by
  intro settings other
  have hopens : (openDirectory 0 settings .empty ⟨["p"]⟩).1.isOk = true := by decide +kernel
  rcases hopen : openDirectory 0 settings .empty ⟨["p"]⟩ with ⟨result, created⟩
  rw [hopen] at hopens
  cases result with
  | error error => cases hopens
  | ok opened =>
    obtain ⟨db, log⟩ := opened
    refine ⟨db, log, created, rfl, ?_⟩
    intro dropped
    have hstored : Text.trimEnd settings.keyOrder.name = "a" := by decide +kernel
    obtain ⟨lock, hstands, hfree, -⟩ := stands_session FileSystem.wellFormed_empty hopen []
    rw [hstored] at hstands
    obtain ⟨-, hsame⟩ := opens_stands_iff hstands hfree (rfl : settings.fault? = none) rfl 1
    obtain ⟨hother, -⟩ := opens_stands_iff hstands hfree (rfl : other.fault? = none) rfl 1
    exact ⟨hsame (by decide), hother.mpr ⟨rfl, nofun⟩⟩

end Database

end BatchStore
