import BatchStore.FileSystem
import Mathlib.Data.List.DropRight

/-!
# Ways through the tree

Following a path is a walk that passes from directory to directory. Where it
succeeds it leads to what the names of the path stand for, and a change that leaves
the directories in place leaves the walk in place. The path of an entry leads from
the directory to the entry, and the path above an entry is the directory's own.
-/

namespace BatchStore

namespace Path

/-- A name that an entry of a directory can have, free of the pieces that stay where
they are or lead up. -/
structure Plain (name : String) : Prop where
  active : isIdle name = false
  down : name ≠ ".."
  short : name.utf8ByteSize ≤ 255
  ended : Char.ofNat 0 ∉ name.toList

theorem step_idle {piece : String} (h : isIdle piece = true) (above : List String) :
    step above piece = above := by
  unfold isIdle at h
  unfold step
  rw [if_pos (by simpa using h)]

theorem step_plain {name : String} (h : Plain name) (above : List String) :
    step above name = above ++ [name] := by
  have hactive := h.active
  simp only [isIdle, Bool.or_eq_false_iff, decide_eq_false_iff_not] at hactive
  unfold step
  rw [if_neg (by simpa using hactive), if_neg h.down]

theorem foldl_step_idle {pieces : List String} (h : ∀ piece ∈ pieces, isIdle piece = true)
    (above : List String) : pieces.foldl step above = above := by
  induction pieces generalizing above with
  | nil => rfl
  | cons piece pieces ih =>
    obtain ⟨hidle, hrest⟩ := List.forall_mem_cons.mp h
    rw [List.foldl_cons, step_idle hidle, ih hrest]

/-- What is trimmed off the end passes the test. -/
theorem trimmed_append (test : String → Bool) (pieces : List String) :
    ∃ off, pieces = trimmed test pieces ++ off ∧ ∀ piece ∈ off, test piece = true :=
  ⟨pieces.rtakeWhile test, List.rdropWhile_append_rtakeWhile.symm,
    fun _ hmem => List.mem_rtakeWhile_imp hmem⟩

theorem names_bare (path : Path) : path.bare.names = path.names := by
  obtain ⟨off, hpieces, hempty⟩ := trimmed_append (· = "") path.pieces
  have hidle : ∀ piece ∈ off, isIdle piece = true := by
    intro piece hmem
    rw [isIdle, hempty piece hmem, Bool.true_or]
  unfold names bare
  conv_rhs => rw [hpieces]
  rw [List.foldl_append, foldl_step_idle hidle]

/-- The pieces in front of the name in the path of an entry. -/
def stem (path : Path) : List String :=
  if path.endsInSlash then path.pieces.dropLast else path.pieces

theorem child_eq (path : Path) (name : String) : path.child name = ⟨path.stem ++ [name]⟩ := by
  unfold child stem endsInSlash
  split
  · next h => simp only [h, decide_true, if_true]
  · next h => rw [if_neg (by simpa using h)]

theorem stem_append (path : Path) :
    ∃ off, path.pieces = path.stem ++ off ∧ ∀ piece ∈ off, isIdle piece = true := by
  unfold stem endsInSlash
  by_cases hslash : path.pieces.getLast? = some ""
  · simp only [hslash, decide_true, if_true]
    refine ⟨[""], (List.dropLast_append_getLast? _ hslash).symm, ?_⟩
    exact List.forall_mem_singleton.mpr rfl
  · simp only [hslash, decide_false, Bool.false_eq_true, if_false]
    exact ⟨[], (List.append_nil _).symm, fun _ hmem => nomatch hmem⟩

theorem names_stem (path : Path) : path.stem.foldl step [] = path.names := by
  obtain ⟨off, hpieces, hidle⟩ := path.stem_append
  rw [names, hpieces, List.foldl_append, foldl_step_idle hidle]

theorem names_child {name : String} (h : Plain name) (path : Path) :
    (path.child name).names = path.names ++ [name] := by
  rw [child_eq, names, List.foldl_append, names_stem, List.foldl_cons, List.foldl_nil,
    step_plain h]

theorem endsInSlash_child {name : String} (h : Plain name) (path : Path) :
    (path.child name).endsInSlash = false := by
  have hactive := h.active
  rw [child_eq, endsInSlash, List.getLast?_concat]
  simp only [isIdle, Bool.or_eq_false_iff, decide_eq_false_iff_not] at hactive
  simpa using hactive.1

theorem parent?_child {name : String} (h : Plain name) (path : Path) :
    (path.child name).parent? = some ⟨trimmed isIdle path.stem⟩ := by
  have hkept : trimmed isIdle (path.stem ++ [name]) = path.stem ++ [name] :=
    List.rdropWhile_concat_neg _ _ _ (by rw [h.active]; exact Bool.false_ne_true)
  rw [child_eq, parent?, hkept]
  split
  · next hnil => exact absurd hnil (List.concat_ne_nil _ _)
  · rw [List.dropLast_concat]

/-- The text of an entry's path is some text of the directory followed by the name. -/
theorem text_child (path : Path) :
    ∃ front : String, ∀ name, (path.child name).text = front ++ name := by
  by_cases hstem : path.stem = []
  · refine ⟨"", fun name => ?_⟩
    rw [child_eq, text, hstem, List.nil_append, String.intercalate_singleton, String.empty_append]
  · refine ⟨"/".intercalate path.stem ++ "/", fun name => ?_⟩
    rw [child_eq, text, String.intercalate_append_of_ne_nil hstem (List.cons_ne_nil _ _),
      String.intercalate_singleton]

/-- The text of a path begins with that of its first pieces. -/
theorem text_append (first second : List String) :
    ∃ rest : String, (Path.mk (first ++ second)).text = (Path.mk first).text ++ rest := by
  unfold text
  by_cases hfirst : first = []
  · exact ⟨_, by rw [hfirst, String.intercalate_nil, String.empty_append]⟩
  by_cases hsecond : second = []
  · exact ⟨"", by rw [hsecond, List.append_nil, String.append_empty]⟩
  · refine ⟨"/" ++ "/".intercalate second, ?_⟩
    rw [String.intercalate_append_of_ne_nil hfirst hsecond, String.append_assoc]

end Path

namespace FileSystem

variable {files later : FileSystem}

theorem pathFault?_eq_none_iff {path : Path} :
    pathFault? path = none ↔
      Char.ofNat 0 ∉ path.text.toList ∧ path.text.utf8ByteSize < pathLimit := by
  unfold pathFault?
  by_cases hzero : Char.ofNat 0 ∈ path.text.toList
  · simp [hzero]
  · by_cases hlong : pathLimit ≤ path.text.utf8ByteSize
    · simp [hzero, hlong]
    · simp [hzero, hlong, Nat.lt_of_not_le hlong]

/-- Where one entry of a directory can be named, so can any with a shorter name. -/
theorem pathFault?_child {path : Path} {name other : String} (hother : Path.Plain other)
    (hle : other.utf8ByteSize ≤ name.utf8ByteSize) (h : pathFault? (path.child name) = none) :
    pathFault? (path.child other) = none := by
  obtain ⟨front, hfront⟩ := path.text_child
  have hended := hother.ended
  rw [pathFault?_eq_none_iff, hfront, String.toList_append, String.utf8ByteSize_append,
    List.mem_append, not_or] at h ⊢
  exact ⟨⟨h.1.1, hended⟩, by omega⟩

theorem pathFault?_append {first second : List String} (h : pathFault? ⟨first ++ second⟩ = none) :
    pathFault? ⟨first⟩ = none := by
  obtain ⟨rest, hrest⟩ := Path.text_append first second
  rw [pathFault?_eq_none_iff, hrest, String.toList_append, String.utf8ByteSize_append,
    List.mem_append, not_or] at h
  rw [pathFault?_eq_none_iff]
  exact ⟨h.1.1, by omega⟩

@[simp] theorem lookup_top (files : FileSystem) : files.lookup [] = some .directory := rfl

/-- The directories of one tree are there in the other. -/
def Keeps (files later : FileSystem) : Prop :=
  ∀ names, files.lookup names = some .directory → later.lookup names = some .directory

theorem Keeps.refl (files : FileSystem) : files.Keeps files := fun _ hdirectory => hdirectory

theorem walk_cons {above below : List String} {piece : String} {node : Option Node}
    (h : files.walk above (piece :: below) = .ok node) :
    files.lookup above = some .directory ∧ piece.utf8ByteSize ≤ maxName ∧
      files.walk (Path.step above piece) below = .ok node := by
  rw [walk] at h
  split at h
  · next hdirectory =>
    split at h
    · cases h
    · next hshort => exact ⟨hdirectory, Nat.le_of_not_lt hshort, h⟩
  · cases h
  · cases h

theorem walk_of_directory {above : List String} {piece : String}
    (hdirectory : files.lookup above = some .directory) (hshort : piece.utf8ByteSize ≤ maxName)
    (below : List String) :
    files.walk above (piece :: below) = files.walk (Path.step above piece) below := by
  rw [walk, hdirectory]
  exact if_neg (Nat.not_lt_of_le hshort)

/-- A walk leads to what the names stand for, and it stays as long as the directories
do that it passes. -/
theorem walk_mono {above pieces : List String} {node : Option Node}
    (hkept : files.Keeps later)
    (h : files.walk above pieces = .ok node) :
    later.walk above pieces = .ok (later.lookup (pieces.foldl Path.step above)) := by
  induction pieces generalizing above with
  | nil => rfl
  | cons piece pieces ih =>
    obtain ⟨hdirectory, hshort, hrest⟩ := walk_cons h
    rw [walk_of_directory (hkept above hdirectory) hshort]
    exact ih hrest

theorem walk_eq_lookup {above pieces : List String} {node : Option Node}
    (h : files.walk above pieces = .ok node) :
    node = files.lookup (pieces.foldl Path.step above) :=
  Except.ok.inj (h.symm.trans (walk_mono (.refl files) h))

theorem walk_append {above first second : List String} {node : Option Node} :
    files.walk above (first ++ second) = .ok node ↔
      (∃ passed, files.walk above first = .ok passed) ∧
        files.walk (first.foldl Path.step above) second = .ok node := by
  induction first generalizing above with
  | nil =>
    rw [List.nil_append, List.foldl_nil]
    exact ⟨fun h => ⟨⟨_, rfl⟩, h⟩, fun h => h.2⟩
  | cons piece first ih =>
    rw [List.cons_append, List.foldl_cons]
    constructor
    · intro h
      obtain ⟨hdirectory, hshort, hrest⟩ := walk_cons h
      rw [walk_of_directory hdirectory hshort]
      exact ih.mp hrest
    · rintro ⟨⟨passed, hpassed⟩, h⟩
      obtain ⟨hdirectory, hshort, hrest⟩ := walk_cons hpassed
      rw [walk_of_directory hdirectory hshort]
      exact ih.mpr ⟨⟨passed, hrest⟩, h⟩

/-- Idle pieces at the end of a path that leads to a directory can be left out. -/
theorem walk_of_idle {first off : List String} (hidle : ∀ piece ∈ off, Path.isIdle piece = true)
    (h : files.walk [] (first ++ off) = .ok (some .directory)) :
    files.walk [] first = .ok (some .directory) := by
  have hend := walk_eq_lookup h
  obtain ⟨⟨passed, hpassed⟩, -⟩ := walk_append.mp h
  rw [List.foldl_append, Path.foldl_step_idle hidle] at hend
  rw [hpassed, walk_eq_lookup hpassed, ← hend]

theorem isDirectory_iff {path : Path} :
    files.isDirectory path = true ↔
      pathFault? path = none ∧ files.walk [] path.pieces = .ok (some .directory) := by
  unfold isDirectory find? locate
  cases pathFault? path with
  | some error => simp
  | none =>
    cases files.walk [] path.pieces with
    | error error => simp
    | ok node => simp

theorem lookup_names {path : Path} (h : files.isDirectory path = true) :
    files.lookup path.names = some .directory :=
  (walk_eq_lookup (isDirectory_iff.mp h).2).symm

theorem isDirectory_mono {path : Path}
    (hkept : files.Keeps later)
    (h : files.isDirectory path = true) : later.isDirectory path = true := by
  obtain ⟨hpath, hwalk⟩ := isDirectory_iff.mp h
  refine isDirectory_iff.mpr ⟨hpath, ?_⟩
  rw [walk_mono hkept hwalk, ← hkept _ (lookup_names h)]
  rfl

/-- The path of an entry leads to the entry. -/
theorem locate_child {path : Path} {name : String} (hname : Path.Plain name)
    (h : files.isDirectory path = true) (hpath : pathFault? (path.child name) = none) :
    files.locate (path.child name) = .ok (files.lookup (path.names ++ [name])) := by
  obtain ⟨off, hpieces, hidle⟩ := path.stem_append
  obtain ⟨-, hwalk⟩ := isDirectory_iff.mp h
  rw [hpieces] at hwalk
  have hstem := walk_of_idle hidle hwalk
  have hnames := lookup_names h
  rw [← Path.names_stem] at hnames ⊢
  rw [locate, hpath, Path.child_eq]
  refine walk_append.mpr ⟨⟨_, hstem⟩, ?_⟩
  rw [walk_of_directory hnames hname.short, Path.step_plain hname]
  rfl

theorem makeDirectories_of_isDirectory {path : Path} (h : files.isDirectory path = true) :
    files.makeDirectories path = (.ok (), files) := by
  obtain ⟨hpath, hwalk⟩ := isDirectory_iff.mp h
  obtain ⟨off, hpieces, hempty⟩ := Path.trimmed_append (· = "") path.pieces
  have hidle : ∀ piece ∈ off, Path.isIdle piece = true := by
    intro piece hmem
    rw [Path.isIdle, hempty piece hmem, Bool.true_or]
  rw [hpieces] at hwalk
  have hbare : files.locate path.bare = .ok (some .directory) := by
    unfold locate Path.bare
    rw [pathFault?_append (show pathFault? ⟨_ ++ off⟩ = none from hpieces ▸ hpath)]
    exact walk_of_idle hidle hwalk
  rw [makeDirectories, ensureDirectory, makeDirectory, hbare]
  simp only [h, if_true]

/-- The path above an entry is a directory where the path of the entry is. -/
theorem isDirectory_parent {path parent : Path} {name : String} (hname : Path.Plain name)
    (h : files.isDirectory path = true) (hparent : (path.child name).parent? = some parent) :
    files.isDirectory parent = true := by
  rw [Path.parent?_child hname, Option.some.injEq] at hparent
  obtain ⟨hpath, hwalk⟩ := isDirectory_iff.mp h
  obtain ⟨slash, hpieces, hslash⟩ := path.stem_append
  obtain ⟨off, hstem, hidle⟩ := Path.trimmed_append Path.isIdle path.stem
  have hsplit : path.pieces = Path.trimmed Path.isIdle path.stem ++ (off ++ slash) := by
    rw [← List.append_assoc, ← hstem, ← hpieces]
  have hwhole : pathFault? ⟨Path.trimmed Path.isIdle path.stem ++ (off ++ slash)⟩ = none := by
    rw [← hsplit]
    exact hpath
  rw [hsplit] at hwalk
  rw [← hparent]
  refine isDirectory_iff.mpr ⟨pathFault?_append hwhole, walk_of_idle ?_ hwalk⟩
  intro piece hmem
  exact (List.mem_append.mp hmem).elim (hidle piece) (hslash piece)

end FileSystem

end BatchStore
