import BatchStore.Proofs.FileTree

/-!
# What the operations on files do

An operation that succeeds changes what is stored under the names that it is called
with, and nothing else; one that fails leaves the tree, or has made directories. Each
operation keeps a well-formed tree well formed.
-/

namespace BatchStore.FileSystem

open Function (update)

variable {files later : FileSystem} {names : List String} {path : Path}

theorem becomes_addFile (h : files.WellFormed) (habsent : files.lookup names = none)
    (hparent : files.lookup names.dropLast = some .directory) :
    Becomes files (files.addFile names).2
      (update files.stored? names (some (files.contents.length, []))) := by
  have hlookup : (files.addFile names).2.lookup =
      update files.lookup names (some (.file files.contents.length)) := lookup_addNode habsent _
  have hlength : (files.addFile names).2.contents.length = files.contents.length + 1 :=
    List.length_append
  have hnew := congrFun hlookup names
  rw [Function.update_self] at hnew
  obtain ⟨hkeeps, hwell⟩ := h.add habsent hparent hlookup (hlength ▸ Nat.le_succ _) fun id hid => by
    obtain rfl := Node.file.inj hid
    exact ⟨rfl, hlength ▸ Nat.lt_succ_self _⟩
  refine ⟨hwell, hkeeps, ?_⟩
  funext others
  by_cases hothers : others = names
  · subst hothers
    rw [Function.update_self, stored?_of_file hnew]
    simp [content, addFile]
  · have hsame := congrFun hlookup others
    rw [Function.update_of_ne hothers] at hsame
    rw [Function.update_of_ne hothers]
    unfold stored?
    rw [hsame]
    split
    · next id hfile =>
      have hstored := h.stored hfile
      simp [content, addFile, List.getElem?_append_left, hstored]
    · rfl

theorem content_setContent {id : FileId} (h : id < files.contents.length) (bytes : Bytes) :
    (files.setContent id bytes).content id = bytes := by
  unfold content setContent
  rw [List.getD_eq_getElem?_getD, List.getElem?_set_self h, Option.getD_some]

theorem content_setContent_of_ne {id other : FileId} (h : id ≠ other) (bytes : Bytes) :
    (files.setContent id bytes).content other = files.content other := by
  unfold content setContent
  rw [List.getD_eq_getElem?_getD, List.getElem?_set_ne h, List.getD_eq_getElem?_getD]

theorem setContent_setContent (files : FileSystem) (id : FileId) (first second : Bytes) :
    (files.setContent id first).setContent id second = files.setContent id second := by
  unfold setContent
  rw [List.set_set]

theorem setContent_content {id : FileId} (h : id < files.contents.length) :
    files.setContent id (files.content id) = files := by
  unfold setContent content
  rw [List.getD_eq_getElem?_getD, List.getElem?_eq_getElem h, Option.getD_some,
    List.set_getElem_self]

theorem becomes_setContent (h : files.WellFormed) {id : FileId}
    (hfile : files.lookup names = some (.file id)) (bytes : Bytes) :
    Becomes files (files.setContent id bytes) (update files.stored? names (some (id, bytes))) := by
  have hlookup : (files.setContent id bytes).lookup = files.lookup := rfl
  refine ⟨⟨fun hstored => ?_, h.single, h.nested⟩, Keeps.refl files, ?_⟩
  · rw [setContent, List.length_set]
    exact h.stored hstored
  · funext others
    by_cases hothers : others = names
    · subst hothers
      rw [Function.update_self, stored?_of_file (hlookup ▸ hfile),
        content_setContent (h.stored hfile)]
    · rw [Function.update_of_ne hothers]
      unfold stored?
      rw [hlookup]
      split
      · next other hother =>
        have hne : id ≠ other := by
          rintro rfl
          exact hothers (h.single hother hfile)
        rw [content_setContent_of_ne hne]
      · rfl

/-- An opening that fails leaves the tree; else the file was there, or it is new. -/
theorem openFile_cases {result : Except FileError FileId}
    (hopen : files.openFile path = (result, later)) :
    (∃ error, result = .error error ∧ later = files) ∨
    (∃ id, result = .ok id ∧ later = files ∧ files.locate path = .ok (some (.file id))) ∨
    (result = .ok files.contents.length ∧ later = (files.addFile path.names).2 ∧
      files.locate path = .ok none) := by
  unfold openFile at hopen
  split at hopen
  · obtain ⟨rfl, rfl⟩ := Prod.mk.inj hopen
    exact .inl ⟨_, rfl, rfl⟩
  · next hpath =>
    rw [locate, hpath]
    split at hopen
    · obtain ⟨rfl, rfl⟩ := Prod.mk.inj hopen
      exact .inl ⟨_, rfl, rfl⟩
    · split at hopen
      · obtain ⟨rfl, rfl⟩ := Prod.mk.inj hopen
        exact .inl ⟨_, rfl, rfl⟩
      · obtain ⟨rfl, rfl⟩ := Prod.mk.inj hopen
        exact .inl ⟨_, rfl, rfl⟩
      · next id hwalk =>
        obtain ⟨rfl, rfl⟩ := Prod.mk.inj hopen
        exact .inr (.inl ⟨id, rfl, rfl, hwalk⟩)
      · next hwalk =>
        obtain ⟨rfl, rfl⟩ := Prod.mk.inj hopen
        exact .inr (.inr ⟨rfl, rfl, hwalk⟩)

theorem openFile_error {error : FileError} (hopen : files.openFile path = (.error error, later)) :
    later = files := by
  rcases openFile_cases hopen with ⟨_, -, rfl⟩ | ⟨_, hresult, -⟩ | ⟨hresult, -⟩
  · rfl
  · cases hresult
  · cases hresult

/-- A file that was opened has its name and holds what it held. -/
theorem becomes_openFile (h : files.WellFormed) {id : FileId}
    (hopen : files.openFile path = (.ok id, later)) :
    Becomes files later
      (update files.stored? path.names (some (id, (files.file? path.names).getD []))) := by
  rcases openFile_cases hopen with ⟨_, hresult, -⟩ | ⟨_, hresult, rfl, hlocate⟩ |
    ⟨hresult, rfl, hlocate⟩
  · cases hresult
  · obtain rfl := Except.ok.inj hresult
    have hentry := stored?_of_file (lookup_of_locate hlocate)
    rw [file?_of_stored? hentry, Option.getD_some, ← hentry, Function.update_eq_self]
    exact h.refl
  · obtain rfl := Except.ok.inj hresult
    have habsent := lookup_of_locate hlocate
    rw [file?_of_none habsent, Option.getD_none]
    exact becomes_addFile h habsent (h.nested_locate hlocate)

theorem lookup_opened (h : files.WellFormed) {id : FileId}
    (hopen : files.openFile path = (.ok id, later)) :
    later.lookup path.names = some (.file id) := by
  have hentry := congrFun (becomes_openFile h hopen).view path.names
  rw [Function.update_self] at hentry
  exact (lookup_of_stored? hentry).1

theorem openFile_ok {id : FileId} (hopen : files.openFile path = (.ok id, later)) :
    path.endsInSlash = false ∧ ∃ node, files.locate path = .ok node := by
  refine ⟨?_, ?_⟩
  · by_contra hslash
    rw [Bool.not_eq_false] at hslash
    unfold openFile at hopen
    rw [if_pos hslash] at hopen
    split at hopen <;> cases (Prod.mk.inj hopen).1
  · rcases openFile_cases hopen with ⟨_, hresult, -⟩ | ⟨_, -, -, hlocate⟩ | ⟨-, -, hlocate⟩
    · cases hresult
    · exact ⟨_, hlocate⟩
    · exact ⟨_, hlocate⟩

theorem openFile_found {id : FileId} (hslash : path.endsInSlash = false)
    (hlocate : files.locate path = .ok (some (.file id))) :
    files.openFile path = (.ok id, files) := by
  obtain ⟨hpath, hwalk⟩ := locate_ok hlocate
  unfold openFile
  rw [hpath, hslash, hwalk]
  rfl

/-- A file that was opened is found again at its path. -/
theorem locate_opened (h : files.WellFormed) {id : FileId}
    (hopen : files.openFile path = (.ok id, later)) :
    path.endsInSlash = false ∧ later.locate path = .ok (some (.file id)) := by
  obtain ⟨hslash, node, hlocate⟩ := openFile_ok hopen
  refine ⟨hslash, ?_⟩
  rw [locate_mono (becomes_openFile h hopen).keeps hlocate, lookup_opened h hopen]

theorem write_error {bytes : Bytes} {error : FileError}
    (hwrite : files.write path bytes = (.error error, later)) : later = files := by
  unfold write at hwrite
  split at hwrite
  · next hopen =>
    obtain ⟨-, rfl⟩ := Prod.mk.inj hwrite
    exact openFile_error hopen
  · cases (Prod.mk.inj hwrite).1

theorem becomes_write (h : files.WellFormed) {bytes : Bytes}
    (hwrite : files.write path bytes = (.ok (), later)) :
    ∃ id, Becomes files later (update files.stored? path.names (some (id, bytes))) := by
  unfold write at hwrite
  split at hwrite
  · cases (Prod.mk.inj hwrite).1
  · next id opened hopen =>
    obtain ⟨-, rfl⟩ := Prod.mk.inj hwrite
    have hopened := becomes_openFile h hopen
    have hset := becomes_setContent hopened.wellFormed (lookup_opened h hopen) bytes
    rw [hopened.view, Function.update_idem] at hset
    exact ⟨id, hopened.trans hset⟩

theorem WellFormed.write (h : files.WellFormed) (path : Path) (bytes : Bytes) :
    (files.write path bytes).2.WellFormed := by
  rcases hwrite : files.write path bytes with ⟨result, later⟩
  cases result with
  | error error => exact write_error hwrite ▸ h
  | ok done =>
    obtain ⟨_, hwritten⟩ := becomes_write h hwrite
    exact hwritten.wellFormed

theorem rename_cases {source target : Path} {result : Except FileError Unit}
    (hrename : files.rename source target = (result, later)) :
    (∃ error, result = .error error ∧ later = files) ∨
    (∃ id node, result = .ok () ∧ files.locate source = .ok (some (.file id)) ∧
      files.locate target = .ok node ∧ node ≠ some .directory ∧
      later = ((files.removeNode source.names).removeNode target.names).addNode target.names
        (.file id)) := by
  unfold rename at hrename
  split at hrename
  · obtain ⟨rfl, rfl⟩ := Prod.mk.inj hrename
    exact .inl ⟨_, rfl, rfl⟩
  · obtain ⟨rfl, rfl⟩ := Prod.mk.inj hrename
    exact .inl ⟨_, rfl, rfl⟩
  · obtain ⟨rfl, rfl⟩ := Prod.mk.inj hrename
    exact .inl ⟨_, rfl, rfl⟩
  · next id node hblocked hsource htarget =>
    obtain ⟨rfl, rfl⟩ := Prod.mk.inj hrename
    refine .inr ⟨id, node, rfl, hsource, htarget, ?_, rfl⟩
    rintro rfl
    exact hblocked rfl
  · obtain ⟨rfl, rfl⟩ := Prod.mk.inj hrename
    exact .inl ⟨_, rfl, rfl⟩

theorem rename_error {source target : Path} {error : FileError}
    (hrename : files.rename source target = (.error error, later)) : later = files := by
  rcases rename_cases hrename with ⟨_, -, rfl⟩ | ⟨_, _, hresult, -⟩
  · rfl
  · cases hresult

theorem becomes_rename (h : files.WellFormed) {source target : Path}
    (hrename : files.rename source target = (.ok (), later)) :
    Becomes files later
      (update (update files.stored? source.names none) target.names
        (files.stored? source.names)) := by
  rcases rename_cases hrename with ⟨_, hresult, -⟩ | ⟨id, node, -, hsource, htarget, hnode, hlater⟩
  · cases hresult
  have hparent := h.nested_locate htarget
  replace hsource := lookup_of_locate hsource
  replace htarget : files.lookup target.names ≠ some .directory := lookup_of_locate htarget ▸ hnode
  have hfile : files.lookup source.names ≠ some .directory := by
    rw [hsource]
    exact nofun
  have hlookup := h.lookup_renamed hfile htarget (.file id)
  rw [← hlater] at hlookup
  have hcontents : later.contents = files.contents := by
    rw [hlater]
    rfl
  obtain ⟨hkeeps, hwell⟩ := h.move hsource htarget hparent hlookup hcontents
  refine ⟨hwell, hkeeps, ?_⟩
  funext others
  unfold stored? content
  rw [hlookup, hcontents]
  by_cases hothers : others = target.names
  · subst hothers
    simp only [Function.update_self, hsource]
  · rw [Function.update_of_ne hothers, Function.update_of_ne hothers]
    by_cases hold : others = source.names
    · simp only [hold, Function.update_self]
    · simp only [Function.update_of_ne hold]

theorem becomes_makeDirectory (h : files.WellFormed) (path : Path) :
    Becomes files (files.makeDirectory path).2 files.stored? := by
  unfold makeDirectory
  split
  · exact h.refl
  · exact h.refl
  · next hlocate =>
    have habsent := lookup_of_locate hlocate
    have hparent := h.nested_locate hlocate
    rw [Path.names_bare] at habsent hparent
    have hlookup := lookup_addNode habsent .directory
    obtain ⟨hkeeps, hwell⟩ := h.add habsent hparent hlookup (Nat.le_refl _) nofun
    refine ⟨hwell, hkeeps, ?_⟩
    funext others
    unfold stored?
    rw [hlookup]
    by_cases hothers : others = path.names
    · rw [hothers, Function.update_self, habsent]
    · rw [Function.update_of_ne hothers]
      rfl

theorem becomes_ensureDirectory (h : files.WellFormed) (path : Path) :
    Becomes files (files.ensureDirectory path).2 files.stored? := by
  have hmade := becomes_makeDirectory h path
  unfold ensureDirectory
  split
  · next hmake =>
    rw [hmake] at hmade
    exact hmade
  · next hmake =>
    rw [hmake] at hmade
    split
    · exact hmade
    · exact hmade

/-- Making directories leaves every file, whether it succeeds or not. -/
theorem becomes_makeDirectories (h : files.WellFormed) (path : Path) :
    Becomes files (files.makeDirectories path).2 files.stored? := by
  induction hlength : path.pieces.length using Nat.strong_induction_on generalizing files path with
  | h length ih =>
    have hensured := becomes_ensureDirectory h path
    rw [makeDirectories]
    split
    · next ensured hensure =>
      rw [hensure] at hensured
      split
      · exact hensured
      · next parent hparent =>
        have habove := ih _ (hlength ▸ Path.length_parent? hparent) hensured.wellFormed parent rfl
        rw [hensured.view] at habove
        split
        · next hmake =>
          rw [hmake] at habove
          exact hensured.trans habove
        · next made hmake =>
          rw [hmake] at habove
          have hagain := becomes_ensureDirectory habove.wellFormed path
          rw [habove.view] at hagain
          exact (hensured.trans habove).trans hagain
    · exact hensured

theorem WellFormed.makeDirectories (h : files.WellFormed) (path : Path) :
    (files.makeDirectories path).2.WellFormed := (becomes_makeDirectories h path).wellFormed

/-- Where the path of an entry can be followed, reading it finds the file of that name. -/
theorem read_child {name : String} (hname : Path.Plain name)
    (hdirectory : files.isDirectory path = true) (hpath : pathFault? (path.child name) = none)
    {bytes : Bytes} (hfile : files.file? (path.names ++ [name]) = some bytes) :
    files.read (path.child name) = .ok bytes := by
  obtain ⟨id, hentry⟩ := stored?_of_file? hfile
  obtain ⟨hlookup, rfl⟩ := lookup_of_stored? hentry
  unfold read
  rw [locate_child hname hdirectory hpath, hlookup]

theorem file?_of_read {bytes : Bytes} (h : files.read path = .ok bytes) :
    pathFault? path = none ∧ files.file? path.names = some bytes := by
  unfold read at h
  split at h
  · cases h
  · cases h
  · cases h
  · next id hlocate =>
    refine ⟨(locate_ok hlocate).1, ?_⟩
    rw [file?_of_stored? (stored?_of_file (lookup_of_locate hlocate)), Except.ok.inj h]

/-- What cannot be found in a directory is not there. -/
theorem lookup_of_read_notFound {name : String} (hname : Path.Plain name)
    (hdirectory : files.isDirectory path = true)
    (h : files.read (path.child name) = .error .notFound) :
    pathFault? (path.child name) = none ∧ files.lookup (path.names ++ [name]) = none := by
  cases hpath : pathFault? (path.child name) with
  | some error =>
    rw [read, locate, hpath] at h
    unfold pathFault? at hpath
    obtain rfl := Except.error.inj h
    split at hpath
    · cases hpath
    · split at hpath <;> cases hpath
  | none =>
    refine ⟨rfl, ?_⟩
    rw [read, locate_child hname hdirectory hpath] at h
    split at h
    · next hlocate => cases hlocate
    · next hlocate => exact Except.ok.inj hlocate
    · cases h
    · cases h

/-- Opening an entry of a directory that is a file finds the file. -/
theorem openFile_child {name : String} (hname : Path.Plain name)
    (hdirectory : files.isDirectory path = true) (hpath : pathFault? (path.child name) = none)
    {id : FileId} (hfile : files.lookup (path.names ++ [name]) = some (.file id)) :
    files.openFile (path.child name) = (.ok id, files) := by
  refine openFile_found (Path.endsInSlash_child hname path) ?_
  rw [locate_child hname hdirectory hpath, hfile]

end BatchStore.FileSystem
