import BatchStore.Proofs.FailedOpening

/-!
# What opening does to locks

The opening of a directory takes one lock, that of the directory's own lock file, or it
fails and no more is locked than before. A lock file keeps its name whatever is opened,
so a directory whose lock is held cannot be taken again, and nothing but a lock that is
held makes a directory refuse.
-/

namespace BatchStore

open Directory (lockName journalName orderName orderDraftName entry_ne)

namespace FileSystem

variable {files middle later : FileSystem} {path : Path}

/-- A tree stays well formed, nothing is locked or unlocked, and the lock files keep
their names. -/
structure KeepsLocks (files later : FileSystem) : Prop where
  wellFormed : files.WellFormed → later.WellFormed
  locked : later.locked = files.locked
  named : ∀ {names id}, files.lookup (names ++ [lockName]) = some (.file id) →
    later.lookup (names ++ [lockName]) = some (.file id)

theorem KeepsLocks.refl (files : FileSystem) : files.KeepsLocks files := ⟨id, rfl, id⟩

theorem KeepsLocks.trans (h : files.KeepsLocks middle) (h' : middle.KeepsLocks later) :
    files.KeepsLocks later :=
  ⟨fun hwell => h'.wellFormed (h.wellFormed hwell), h'.locked.trans h.locked,
    fun hnamed => h'.named (h.named hnamed)⟩

/-- The trees differ in what the files hold, and in nothing else. -/
structure SameTree (files later : FileSystem) : Prop where
  nodes : later.nodes = files.nodes
  locked : later.locked = files.locked
  length : later.contents.length = files.contents.length

theorem SameTree.refl (files : FileSystem) : files.SameTree files := ⟨rfl, rfl, rfl⟩

theorem SameTree.setContent (h : files.SameTree later) (id : FileId) (bytes : Bytes) :
    files.SameTree (later.setContent id bytes) :=
  ⟨h.nodes, h.locked, List.length_set.trans h.length⟩

theorem SameTree.keepsLocks (h : files.SameTree later) : files.KeepsLocks later := by
  have hlookup : later.lookup = files.lookup := by
    unfold lookup
    rw [h.nodes]
  refine ⟨fun hwell => ⟨?_, ?_, ?_⟩, h.locked, fun hfile => hlookup ▸ hfile⟩
  · rw [hlookup, h.length]
    exact hwell.stored
  · rw [hlookup]
    exact hwell.single
  · rw [hlookup]
    exact hwell.nested

/-- A file keeps its name where what is stored there stays. -/
theorem Becomes.lookup_file {view : List String → Option (FileId × Bytes)}
    (h : Becomes files later view) {names : List String} (hview : view names = files.stored? names)
    {id : FileId} (hfile : files.lookup names = some (.file id)) :
    later.lookup names = some (.file id) := by
  have hentry := congrFun h.view names
  rw [hview, stored?_of_file hfile] at hentry
  exact (lookup_of_stored? hentry).1

/-- The entries of other names are no lock files, in whatever directory they are. -/
theorem lockEntry_ne {name : String} (hname : name ≠ lockName) (names front : List String) :
    names ++ [lockName] ≠ front ++ [name] := by
  intro heq
  exact hname (List.singleton_inj.mp (List.append_inj' heq rfl).2).symm

/-- A change under a name that is not that of a lock file keeps the locks. -/
theorem Becomes.keepsLocks {front : List String} {name : String}
    {found : Option (FileId × Bytes)}
    (h : Becomes files later (Function.update files.stored? (front ++ [name]) found))
    (hname : name ≠ lockName) (hlocked : later.locked = files.locked) : files.KeepsLocks later :=
  ⟨fun _ => h.wellFormed, hlocked, fun {names _} hfile =>
    h.lookup_file (Function.update_of_ne (lockEntry_ne hname names front) _ _) hfile⟩

theorem locked_openFile (files : FileSystem) (path : Path) :
    (files.openFile path).2.locked = files.locked := by
  rcases hopen : files.openFile path with ⟨result, later⟩
  rcases openFile_cases hopen with ⟨_, -, rfl⟩ | ⟨_, -, rfl, -⟩ | ⟨-, rfl, -⟩
  · rfl
  · rfl
  · rfl

/-- Opening a file leaves the names of all files as they are. -/
theorem keepsLocks_openFile (h : files.WellFormed) (path : Path) :
    files.KeepsLocks (files.openFile path).2 := by
  have hlocked := locked_openFile files path
  rcases hopen : files.openFile path with ⟨result, later⟩
  rw [hopen] at hlocked
  rcases openFile_cases hopen with ⟨_, -, rfl⟩ | ⟨_, -, rfl, -⟩ | ⟨-, rfl, hlocate⟩
  · exact .refl later
  · exact .refl later
  · have habsent := lookup_of_locate hlocate
    have hadded := becomes_addFile h habsent (h.nested_locate hlocate)
    refine ⟨fun _ => hadded.wellFormed, hlocked, fun {names id} hfile =>
      hadded.lookup_file (Function.update_of_ne ?_ _ _) hfile⟩
    intro heq
    rw [heq, habsent] at hfile
    cases hfile

theorem locked_write (files : FileSystem) (path : Path) (bytes : Bytes) :
    (files.write path bytes).2.locked = files.locked := by
  have hopened := locked_openFile files path
  unfold write
  rcases hopen : files.openFile path with ⟨result, opened⟩
  rw [hopen] at hopened
  cases result with
  | error error => exact hopened
  | ok id => exact hopened

theorem locked_rename (files : FileSystem) (source target : Path) :
    (files.rename source target).2.locked = files.locked := by
  rcases hrename : files.rename source target with ⟨result, later⟩
  rcases rename_cases hrename with ⟨_, -, rfl⟩ | ⟨_, _, -, -, -, -, rfl⟩
  · rfl
  · rfl

/-- Making a directory adds names, whatever comes of it. -/
theorem ensureDirectory_nodes (files : FileSystem) (path : Path) :
    ∃ nodes, (files.ensureDirectory path).2 = { files with nodes } := by
  obtain ⟨nodes, hnodes⟩ : ∃ nodes, (files.makeDirectory path).2 = { files with nodes } := by
    unfold makeDirectory
    split
    · exact ⟨_, rfl⟩
    · exact ⟨_, rfl⟩
    · exact ⟨_, rfl⟩
  unfold ensureDirectory
  rcases hmade : files.makeDirectory path with ⟨result, made⟩
  rw [hmade] at hnodes
  cases result with
  | ok done => exact ⟨nodes, hnodes⟩
  | error error =>
    simp only
    split
    · exact ⟨nodes, hnodes⟩
    · exact ⟨nodes, hnodes⟩

theorem makeDirectories_nodes (files : FileSystem) (path : Path) :
    ∃ nodes, (files.makeDirectories path).2 = { files with nodes } := by
  induction hlength : path.pieces.length using Nat.strong_induction_on generalizing files path with
  | h length ih =>
    obtain ⟨nodes, hnodes⟩ := ensureDirectory_nodes files path
    rw [makeDirectories]
    split
    · next ensured hensure =>
      obtain rfl : ensured = { files with nodes } := by rw [← hnodes, hensure]
      split
      · exact ⟨nodes, rfl⟩
      · next parent hparent =>
        obtain ⟨above, habove⟩ :=
          ih _ (hlength ▸ Path.length_parent? hparent) { files with nodes } parent rfl
        split
        · next hmake =>
          rw [hmake] at habove
          exact ⟨above, habove⟩
        · next made hmake =>
          rw [hmake] at habove
          obtain ⟨all, hall⟩ := ensureDirectory_nodes made path
          exact ⟨all, by rw [hall, show made = _ from habove]⟩
    · exact ⟨nodes, hnodes⟩

theorem exists?_of_isDirectory (h : files.isDirectory path = true) :
    files.exists? path = true := by
  unfold isDirectory at h
  unfold exists?
  rw [of_decide_eq_true h]
  rfl

theorem isDirectory_of_ensureDirectory_error {error : FileError}
    (h : files.ensureDirectory path = (.error error, later)) : later.isDirectory path = false := by
  unfold ensureDirectory at h
  split at h
  · cases h
  · split at h
    · cases h
    · next hnone =>
      obtain ⟨-, rfl⟩ := Prod.mk.inj h
      exact Bool.eq_false_iff.mpr hnone

/-- A path that leads to a directory leads through one. -/
theorem isDirectory_parent? {parent : Path} (h : files.isDirectory path = true)
    (hparent : path.parent? = some parent) : files.isDirectory parent = true := by
  obtain ⟨hpath, hwalk⟩ := isDirectory_iff.mp h
  obtain ⟨off, hpieces, -⟩ := Path.trimmed_append Path.isIdle path.pieces
  unfold Path.parent? at hparent
  split at hparent
  · cases hparent
  · next hne =>
    obtain rfl := Option.some.inj hparent
    generalize Path.trimmed Path.isIdle path.pieces = kept at hpieces hne ⊢
    obtain ⟨above, hkept, hidle⟩ := Path.trimmed_append Path.isIdle kept.dropLast
    have hsplit : path.pieces = kept.dropLast ++ ([kept.getLast hne] ++ off) := by
      rw [← List.append_assoc, List.dropLast_append_getLast hne, ← hpieces]
    have hwhole : pathFault? ⟨Path.trimmed Path.isIdle kept.dropLast ++
        (above ++ ([kept.getLast hne] ++ off))⟩ = none := by
      rw [← List.append_assoc, ← hkept, ← hsplit]
      exact hpath
    rw [hsplit] at hwalk
    obtain ⟨⟨passed, hpassed⟩, hrest⟩ := walk_append.mp hwalk
    obtain ⟨hdirectory, -, -⟩ := walk_cons hrest
    have hwalked : files.walk [] kept.dropLast = .ok (some .directory) := by
      rw [hpassed, walk_eq_lookup hpassed, hdirectory]
    rw [hkept] at hwalked
    exact isDirectory_iff.mpr ⟨pathFault?_append hwhole, walk_of_idle hidle hwalked⟩

/-- Where the directories could not be made the path leads to none. -/
theorem isDirectory_of_makeDirectories_error {error : FileError}
    (h : files.makeDirectories path = (.error error, later)) : later.isDirectory path = false := by
  induction hlength : path.pieces.length using Nat.strong_induction_on
    generalizing files path error with
  | h length ih =>
    rw [makeDirectories] at h
    split at h
    · next ensured hensure =>
      split at h
      · obtain ⟨-, rfl⟩ := Prod.mk.inj h
        exact isDirectory_of_ensureDirectory_error hensure
      · next parent hparent =>
        split at h
        · next hmake =>
          obtain ⟨-, rfl⟩ := Prod.mk.inj h
          have habove := ih _ (hlength ▸ Path.length_parent? hparent) hmake rfl
          refine Bool.eq_false_iff.mpr fun hthere => ?_
          rw [isDirectory_parent? hthere hparent] at habove
          cases habove
        · exact isDirectory_of_ensureDirectory_error h
    · exact isDirectory_of_ensureDirectory_error h

end FileSystem

open FileSystem (KeepsLocks)

namespace Directory

variable {files after : FileSystem} {path : Path} {directory : Directory}

/-- An opening has failed. No lock has been taken, and only a lock that was held before
makes it fail for being locked. -/
structure Refused (files : FileSystem) (path : Path) (error : StoreError) (after : FileSystem) :
    Prop where
  keeps : files.KeepsLocks after
  held : error = .locked →
    ∃ lock ∈ files.locked, after.lookup (path.names ++ [lockName]) = some (.file lock)

/-- The lock of a directory has been taken and no other. -/
structure Takes (files : FileSystem) (path : Path) (lock : FileId) (after : FileSystem) : Prop where
  wellFormed : after.WellFormed
  free : lock ∉ files.locked
  locked : after.locked = lock :: files.locked
  named : ∀ {names id}, files.lookup (names ++ [lockName]) = some (.file id) →
    after.lookup (names ++ [lockName]) = some (.file id)
  file : after.lookup (path.names ++ [lockName]) = some (.file lock)

/-- What the taking of a directory comes to. -/
inductive Taking (files : FileSystem) (path : Path) :
    Except StoreError Directory × FileSystem → Prop where
  | refused {error : StoreError} {after : FileSystem} (h : Refused files path error after) :
    Taking files path (.error error, after)
  | taken {lock : FileId} {after : FileSystem} (h : Takes files path lock after) :
    Taking files path (.ok ⟨path, lock⟩, after)

theorem lift_files {α : Type} (outcome : Except FileError α × FileSystem) :
    (lift outcome).2 = outcome.2 := by
  obtain ⟨result, files⟩ := outcome
  cases result <;> rfl

/-- What is missing is made or missed. -/
theorem ensure_nodes {create : Bool} {result : Except StoreError Unit}
    (hensure : ensure files path create = (result, after)) :
    (∃ nodes, after = { files with nodes }) ∧ result ≠ .error .locked ∧
      (after.isDirectory path = true → result = .ok ()) := by
  unfold ensure at hensure
  split at hensure
  · obtain ⟨rfl, rfl⟩ := Prod.mk.inj hensure
    exact ⟨⟨_, rfl⟩, nofun, fun _ => rfl⟩
  · next hmissing =>
    split at hensure
    · obtain ⟨nodes, hnodes⟩ := FileSystem.makeDirectories_nodes files path
      rw [← lift_files, hensure] at hnodes
      refine ⟨⟨nodes, hnodes⟩, ?_, fun hdirectory => ?_⟩
      · rintro rfl
        obtain ⟨fault, hfault, -⟩ := lift_error hensure
        cases hfault
      · cases result with
        | ok done => rfl
        | error error =>
          obtain ⟨fault, -, hmake⟩ := lift_error hensure
          rw [FileSystem.isDirectory_of_makeDirectories_error hmake] at hdirectory
          cases hdirectory
    · obtain ⟨rfl, rfl⟩ := Prod.mk.inj hensure
      exact ⟨⟨_, rfl⟩, nofun, fun hdirectory =>
        absurd (FileSystem.exists?_of_isDirectory hdirectory) hmissing⟩

/-- No lock is looked at. -/
theorem ensure_keepsLocks (h : files.WellFormed) {create : Bool} {result : Except StoreError Unit}
    (hensure : ensure files path create = (result, after)) : files.KeepsLocks after := by
  obtain ⟨hbecomes, -⟩ := ensure_cases h hensure
  obtain ⟨⟨nodes, hnodes⟩, -⟩ := ensure_nodes hensure
  exact ⟨fun _ => hbecomes.wellFormed, by rw [hnodes], fun hfile => hbecomes.lookup_file rfl hfile⟩

theorem takeLock_taking (h : files.WellFormed) (path : Path) :
    Taking files path (takeLock files path) := by
  have hkeeps := FileSystem.keepsLocks_openFile h (path.child lockName)
  unfold takeLock
  rcases hopen : files.openFile (path.child lockName) with ⟨result, opened⟩
  rw [hopen] at hkeeps
  cases result with
  | error fault => exact .refused ⟨hkeeps, nofun⟩
  | ok lock =>
    have hfile := FileSystem.lookup_opened h hopen
    rw [Path.names_child (plain lockName_mem)] at hfile
    simp only [lift]
    unfold FileSystem.tryLock
    by_cases hheld : lock ∈ opened.locked
    · rw [if_pos hheld]
      exact .refused ⟨hkeeps, fun _ => ⟨lock, hkeeps.locked ▸ hheld, hfile⟩⟩
    · rw [if_neg hheld]
      have hlocked := FileSystem.becomes_of_eq (hkeeps.wellFormed h)
        (rfl : ({ opened with locked := lock :: opened.locked } : FileSystem).nodes = _) rfl
      exact .taken ⟨hlocked.wellFormed, hkeeps.locked ▸ hheld,
        congrArg (lock :: ·) hkeeps.locked, hkeeps.named, hfile⟩

theorem acquire_taking (h : files.WellFormed) (path : Path) (create : Bool) :
    Taking files path (acquire files path create) := by
  unfold acquire
  rcases hensure : ensure files path create with ⟨result, ensured⟩
  have hkeeps := ensure_keepsLocks h hensure
  obtain ⟨hbecomes, -⟩ := ensure_cases h hensure
  obtain ⟨-, hfree, -⟩ := ensure_nodes hensure
  cases result with
  | error error =>
    exact .refused ⟨hkeeps, fun heq => absurd (congrArg Except.error heq) hfree⟩
  | ok done =>
    simp only
    split
    · have htaking := takeLock_taking hbecomes.wellFormed path
      generalize takeLock ensured path = outcome at htaking ⊢
      cases htaking with
      | refused h =>
        refine .refused ⟨hkeeps.trans h.keeps, fun heq => ?_⟩
        rw [← hkeeps.locked]
        exact h.held heq
      | taken h =>
        exact .taken ⟨h.wellFormed, hkeeps.locked ▸ h.free, h.locked.trans (by rw [hkeeps.locked]),
          fun hfile => h.named (hkeeps.named hfile), h.file⟩
    · exact .refused ⟨hkeeps, nofun⟩

end Directory

namespace Database

open Directory (Refused Takes Taking)

variable {files after : FileSystem} {path : Path} {directory : Directory} {settings : Settings}

theorem saveOrderName_keepsLocks (h : files.WellFormed) {name : String}
    {result : Except StoreError Unit}
    (hsave : directory.saveOrderName files name = (result, after)) :
    files.KeepsLocks after ∧ result ≠ .error .locked := by
  have hlocked : after.locked = files.locked := by
    have hwritten := FileSystem.locked_write files directory.orderDraftPath
      (Text.Utf8.encode name ++ [10])
    rw [← Directory.lift_files] at hwritten
    unfold Directory.saveOrderName at hsave
    rcases hwrite : Directory.lift (files.write directory.orderDraftPath
      (Text.Utf8.encode name ++ [10])) with ⟨writing, drafted⟩
    rw [hwrite] at hsave hwritten
    cases writing with
    | error error =>
      obtain ⟨-, rfl⟩ := Prod.mk.inj hsave
      exact hwritten
    | ok done =>
      have hrenamed := FileSystem.locked_rename drafted directory.orderDraftPath directory.orderPath
      rw [← Directory.lift_files, show Directory.lift _ = _ from hsave] at hrenamed
      exact hrenamed.trans hwritten
  rcases directory.saveOrderName_cases h hsave with ⟨error, found, rfl, hdraft⟩ | ⟨id, rfl, hsaved⟩
  · exact ⟨hdraft.keepsLocks (by decide) hlocked, nofun⟩
  · refine ⟨⟨fun _ => hsaved.wellFormed, hlocked,
      fun {names _} hfile => hsaved.lookup_file ?_ hfile⟩, nofun⟩
    rw [Function.update_of_ne (FileSystem.lockEntry_ne (by decide) _ _),
      Function.update_of_ne (FileSystem.lockEntry_ne (by decide) _ _)]

/-- Binding writes the order file and its draft. -/
theorem bindOrder_keepsLocks (h : files.WellFormed)
    (hdirectory : files.isDirectory directory.path = true) {result : Except StoreError Unit}
    (hbind : bindOrder settings directory files = (result, after)) :
    files.KeepsLocks after ∧ result ≠ .error .locked := by
  unfold bindOrder at hbind
  rcases directory.loadOrderName_cases hdirectory with
    ⟨error, hload⟩ | ⟨hload, -⟩ | ⟨stored, hload, -⟩
  · rw [hload] at hbind
    obtain ⟨rfl, rfl⟩ := Prod.mk.inj hbind
    exact ⟨.refl files, nofun⟩
  · rw [hload] at hbind
    exact saveOrderName_keepsLocks h hbind
  · rw [hload] at hbind
    simp only at hbind
    split at hbind
    · obtain ⟨rfl, rfl⟩ := Prod.mk.inj hbind
      exact ⟨.refl files, nofun⟩
    · obtain ⟨rfl, rfl⟩ := Prod.mk.inj hbind
      exact ⟨.refl files, nofun⟩

theorem openJournal_keepsLocks (h : files.WellFormed) {log : OpenLog}
    (hopen : FileLog.openAt files path = (.ok log, after)) : files.KeepsLocks after := by
  have hkeeps := FileSystem.keepsLocks_openFile h path
  rw [(FileLog.openAt_ok hopen).1] at hkeeps
  exact hkeeps

theorem checkPresence_ne_locked (settings : Settings) (directory : Directory)
    (files : FileSystem) : checkPresence settings directory files ≠ .error .locked := by
  unfold checkPresence
  split
  · split <;> nofun
  · split <;> nofun

/-- Behind its lock the opening of a directory has nothing to do with locks. -/
theorem openLocked_keepsLocks (directory : Directory) (h : files.WellFormed)
    (hdirectory : files.isDirectory directory.path = true) {id : Nat}
    {result : Except StoreError (Database × OpenLog)}
    (hopen : openLocked id settings directory files = (result, after)) :
    files.KeepsLocks after ∧
      ((∃ error, result = .error error ∧ error ≠ .locked) ∨
        ∃ db log, result = .ok (db, log) ∧ db.directory = some directory) := by
  have houtcome := openLocked_outcome h hdirectory id settings
  rw [hopen] at houtcome
  cases houtcome with
  | unwanted hpresence =>
    refine ⟨.refl files, .inl ⟨_, rfl, ?_⟩⟩
    rintro rfl
    exact checkPresence_ne_locked settings directory files hpresence
  | unbound hbind =>
    obtain ⟨hkeeps, hfree⟩ := bindOrder_keepsLocks h hdirectory hbind
    refine ⟨hkeeps, .inl ⟨_, rfl, ?_⟩⟩
    rintro rfl
    exact hfree rfl
  | unopened hbind =>
    obtain ⟨hkeeps, -⟩ := bindOrder_keepsLocks h hdirectory hbind
    exact ⟨hkeeps, .inl ⟨_, rfl, nofun⟩⟩
  | refused hbind hjournal hreplayed =>
    obtain ⟨hkeeps, -⟩ := bindOrder_keepsLocks h hdirectory hbind
    have hbound := bindOrder_ok h hdirectory hbind
    refine ⟨hkeeps.trans (openJournal_keepsLocks hbound.wellFormed hjournal), .inl ⟨_, rfl, ?_⟩⟩
    rintro rfl
    exact isOfJournal_of_replayed hreplayed
  | opened hbind hjournal hreplayed hdevice =>
    obtain ⟨hkeeps, -⟩ := bindOrder_keepsLocks h hdirectory hbind
    have hbound := bindOrder_ok h hdirectory hbind
    have hopened := hkeeps.trans (openJournal_keepsLocks hbound.wellFormed hjournal)
    refine ⟨?_, .inr ⟨_, _, rfl, rfl⟩⟩
    rw [hdevice]
    exact hopened.trans ((FileSystem.SameTree.refl _).setContent _ _).keepsLocks

/-- What the opening of a directory does to locks. -/
inductive Locking (files : FileSystem) (path : Path) :
    Except StoreError (Database × OpenLog) × FileSystem → Prop where
  | refused {error : StoreError} {after : FileSystem} (h : Refused files path error after) :
    Locking files path (.error error, after)
  | opened {db : Database} {log : OpenLog} {lock : FileId} {after : FileSystem}
      (hdirectory : db.directory = some ⟨path, lock⟩) (h : Takes files path lock after) :
    Locking files path (.ok (db, log), after)

/-- A failure behind the lock gives it back. -/
theorem openDirectory_locking (h : files.WellFormed) (id : Nat) (settings : Settings)
    (path : Path) : Locking files path (openDirectory id settings files path) := by
  unfold openDirectory
  cases hvalid : settings.fault? with
  | some fault => exact .refused ⟨.refl files, nofun⟩
  | none =>
    have htaking := Directory.acquire_taking h path settings.createIfMissing
    rcases hacquire : Directory.acquire files path settings.createIfMissing with
      ⟨acquiring, taken⟩
    rw [hacquire] at htaking
    cases htaking with
    | refused h => exact .refused h
    | @taken lock _ htaken =>
      rcases Directory.acquire_cases h hacquire with
        ⟨_, _, hresult, -⟩ | ⟨_, _, -, hdirectory, hbecomes⟩
      · cases hresult
      simp only
      rcases hlocked : openLocked id settings ⟨path, lock⟩ taken with ⟨result, left⟩
      obtain ⟨hkeeps, ⟨error, rfl, hother⟩ | ⟨db, log, rfl, hbelongs⟩⟩ :=
        openLocked_keepsLocks ⟨path, lock⟩ hbecomes.wellFormed hdirectory hlocked
      · have hback : (left.unlock lock).locked = files.locked := by
          show left.locked.filter (· ≠ lock) = files.locked
          rw [hkeeps.locked, htaken.locked, List.filter_cons_of_neg (by simp)]
          exact List.filter_eq_self.mpr fun other hmem =>
            decide_eq_true fun heq => htaken.free (heq ▸ hmem)
        have hunlocked := FileSystem.becomes_of_eq (hkeeps.wellFormed htaken.wellFormed)
          (rfl : (left.unlock lock).nodes = left.nodes) rfl
        have hleft : files.KeepsLocks (left.unlock lock) :=
          ⟨fun _ => hunlocked.wellFormed, hback, fun {names id} hfile => by
            show left.lookup (names ++ [lockName]) = some (.file id)
            exact hkeeps.named (htaken.named hfile)⟩
        exact .refused ⟨hleft, fun heq => absurd heq hother⟩
      · exact .opened hbelongs ⟨hkeeps.wellFormed htaken.wellFormed, htaken.free,
          hkeeps.locked.trans htaken.locked, fun hfile => hkeeps.named (htaken.named hfile),
          hkeeps.named htaken.file⟩

/-- Why a directory that is there and locked refuses. The system is asked for the lock
file first, and refuses a path that is too long for it. -/
def lockedError (path : Path) : StoreError :=
  match FileSystem.pathFault? (path.child lockName) with
  | some fault => .io (.file fault)
  | none => .locked

section Held

variable {lock : FileId} (h : files.WellFormed)
  (hlock : files.lookup (path.names ++ [lockName]) = some (.file lock))
  (hheld : lock ∈ files.locked)

include hlock hheld in
/-- A path that leads to the directory finds the lock, and nothing is done. -/
theorem takeLock_held (hdirectory : files.isDirectory path = true) :
    Directory.takeLock files path = (.error (lockedError path), files) := by
  unfold Directory.takeLock lockedError
  cases hpath : FileSystem.pathFault? (path.child lockName) with
  | some fault =>
    have hopen : files.openFile (path.child lockName) = (.error fault, files) := by
      unfold FileSystem.openFile
      rw [hpath]
    rw [hopen]
    rfl
  | none =>
    have hopen := FileSystem.openFile_child (Directory.plain Directory.lockName_mem) hdirectory
      hpath hlock
    have hlocked : files.tryLock lock = none := if_pos hheld
    simp only [hopen, Directory.lift, hlocked]

/-- An opening that comes to nothing. Directories may have been made for it, no file is
touched, and where the path leads to a directory it is the lock that refuses. -/
structure Denied (settings : Settings) (files : FileSystem) (path : Path) (error : StoreError)
    (after : FileSystem) : Prop where
  file? : after.file? = files.file?
  nodes : ∃ nodes, after = { files with nodes }
  unchanged : files.isDirectory path = true → after = files
  locked : settings.fault? = none → after.isDirectory path = true → error = lockedError path

include h hlock hheld in
theorem acquire_held (create : Bool) :
    ∃ error, Directory.acquire files path create =
        (.error error, (Directory.ensure files path create).2) ∧
      ((Directory.ensure files path create).2.isDirectory path = true →
        error = lockedError path) := by
  unfold Directory.acquire
  rcases hensure : Directory.ensure files path create with ⟨result, ensured⟩
  obtain ⟨-, -, hthere⟩ := Directory.ensure_nodes hensure
  have hkeeps := Directory.ensure_keepsLocks h hensure
  cases result with
  | error error =>
    refine ⟨error, rfl, fun hdirectory => ?_⟩
    cases hthere hdirectory
  | ok done =>
    cases hdirectory : ensured.isDirectory path with
    | false =>
      simp only [hdirectory]
      exact ⟨_, rfl, nofun⟩
    | true =>
      have hrefuses := takeLock_held (hkeeps.named hlock) (hkeeps.locked ▸ hheld) hdirectory
      refine ⟨lockedError path, ?_, fun _ => rfl⟩
      simp only [hdirectory, if_true, hrefuses]

include h hlock hheld in
/-- Whatever path leads there, and whatever the settings are. -/
theorem openDirectory_held (id : Nat) (settings : Settings) :
    ∃ error after, openDirectory id settings files path = (.error error, after) ∧
      Denied settings files path error after := by
  unfold openDirectory
  cases hvalid : settings.fault? with
  | some fault =>
    refine ⟨_, files, rfl, rfl, ⟨_, rfl⟩, fun _ => rfl, fun hnone => ?_⟩
    cases hvalid.symm.trans hnone
  | none =>
    obtain ⟨error, hacquire, hlocked⟩ := acquire_held h hlock hheld settings.createIfMissing
    rcases hensure : Directory.ensure files path settings.createIfMissing with ⟨result, ensured⟩
    rw [hensure] at hacquire hlocked
    obtain ⟨hbecomes, -⟩ := Directory.ensure_cases h hensure
    obtain ⟨hnodes, -, -⟩ := Directory.ensure_nodes hensure
    refine ⟨error, ensured, by simp only [hacquire], ?_, hnodes, fun hdirectory => ?_,
      fun _ => hlocked⟩
    · unfold FileSystem.file?
      rw [hbecomes.view]
    · unfold Directory.ensure at hensure
      rw [if_pos (FileSystem.exists?_of_isDirectory hdirectory)] at hensure
      exact (Prod.mk.inj hensure).2.symm

end Held

end Database

end BatchStore
