import BatchStore.Proofs.Walks
import Mathlib.Logic.Function.Basic

/-!
# Well-formed trees

In a well-formed tree every name is that of an entry of a directory, and no file has
two names. What the files hold is then a map from names to bytes. Names come and go one
at a time, and the directories stay in place.
-/

namespace BatchStore.FileSystem

open Function (update)

variable {files middle later : FileSystem} {names : List String} {path : Path}

/-- Files are stored, under one name each, and names stand in directories. -/
structure WellFormed (files : FileSystem) : Prop where
  stored : ∀ {names id}, files.lookup names = some (.file id) → id < files.contents.length
  single : ∀ {names others id}, files.lookup names = some (.file id) →
    files.lookup others = some (.file id) → names = others
  nested : ∀ {names node}, files.lookup names = some node →
    files.lookup names.dropLast = some .directory

/-- The file of that very name and what it holds. -/
def stored? (files : FileSystem) (names : List String) : Option (FileId × Bytes) :=
  match files.lookup names with
  | some (.file id) => some (id, files.content id)
  | _ => none

/-- What the file of that very name holds. -/
def file? (files : FileSystem) (names : List String) : Option Bytes :=
  (files.stored? names).map Prod.snd

theorem stored?_of_file {id : FileId} (h : files.lookup names = some (.file id)) :
    files.stored? names = some (id, files.content id) := by
  unfold stored?
  rw [h]

theorem stored?_of_none (h : files.lookup names = none) : files.stored? names = none := by
  unfold stored?
  rw [h]

theorem lookup_of_stored? {id : FileId} {bytes : Bytes}
    (h : files.stored? names = some (id, bytes)) :
    files.lookup names = some (.file id) ∧ files.content id = bytes := by
  unfold stored? at h
  split at h
  · next hfile =>
    obtain ⟨rfl, rfl⟩ := Prod.mk.inj (Option.some.inj h)
    exact ⟨hfile, rfl⟩
  · cases h

theorem file?_of_stored? {id : FileId} {bytes : Bytes}
    (h : files.stored? names = some (id, bytes)) :
    files.file? names = some bytes := by
  unfold file?
  rw [h]
  rfl

theorem file?_of_none (h : files.lookup names = none) : files.file? names = none := by
  unfold file?
  rw [stored?_of_none h]
  rfl

theorem stored?_of_file? {bytes : Bytes} (h : files.file? names = some bytes) :
    ∃ id, files.stored? names = some (id, bytes) := by
  obtain ⟨⟨id, _⟩, hentry, rfl⟩ := Option.map_eq_some_iff.mp h
  exact ⟨id, hentry⟩

/-- A well-formed tree has come out of a tree whose directories are still there, and
its files are these. -/
structure Becomes (files later : FileSystem) (view : List String → Option (FileId × Bytes)) :
    Prop where
  wellFormed : later.WellFormed
  keeps : files.Keeps later
  view : later.stored? = view

theorem Becomes.trans {between view : List String → Option (FileId × Bytes)}
    (hfirst : Becomes files middle between) (hsecond : Becomes middle later view) :
    Becomes files later view :=
  ⟨hsecond.wellFormed, fun names h => hsecond.keeps names (hfirst.keeps names h), hsecond.view⟩

theorem Becomes.isDirectory {view : List String → Option (FileId × Bytes)}
    (h : Becomes files later view) (hdirectory : files.isDirectory path = true) :
    later.isDirectory path = true :=
  isDirectory_mono h.keeps hdirectory

/-- Nothing has changed but what is locked. -/
theorem becomes_of_eq (h : files.WellFormed) (hnodes : later.nodes = files.nodes)
    (hcontents : later.contents = files.contents) : Becomes files later files.stored? := by
  have hlookup : later.lookup = files.lookup := by
    unfold lookup
    rw [hnodes]
  refine ⟨⟨?_, ?_, ?_⟩, fun names hnames => hlookup ▸ hnames, ?_⟩
  · rw [hlookup, hcontents]
    exact h.stored
  · rw [hlookup]
    exact h.single
  · rw [hlookup]
    exact h.nested
  · unfold stored? content
    rw [hlookup, hcontents]

theorem WellFormed.refl (h : files.WellFormed) : Becomes files files files.stored? :=
  becomes_of_eq h rfl rfl

/-- Where no file has changed, one may be named as changed to what it was. -/
theorem Becomes.update_self (h : Becomes files later files.stored?) (names : List String) :
    Becomes files later (update files.stored? names (files.stored? names)) := by
  rw [Function.update_eq_self]
  exact h

theorem Becomes.file?_of_ne {others : List String} {found : Option (FileId × Bytes)}
    (h : Becomes files later (update files.stored? names found)) (hne : others ≠ names) :
    later.file? others = files.file? others := by
  unfold file?
  rw [h.view, Function.update_of_ne hne]

theorem file?_unlock (files : FileSystem) (id : FileId) : (files.unlock id).file? = files.file? :=
  rfl

theorem becomes_tryLock (h : files.WellFormed) {id : FileId}
    (hlock : files.tryLock id = some later) : Becomes files later files.stored? := by
  unfold tryLock at hlock
  split at hlock
  · cases hlock
  · obtain rfl := Option.some.inj hlock
    exact becomes_of_eq h rfl rfl

theorem wellFormed_empty : empty.WellFormed := by
  have htop : ∀ {names node}, empty.lookup names = some node → names = [] ∧ node = .directory := by
    intro names node h
    unfold lookup at h
    split at h
    · next hnil => exact ⟨hnil, (Option.some.inj h).symm⟩
    · cases h
  refine ⟨fun h => ?_, fun h => ?_, fun h => ?_⟩
  · cases (htop h).2
  · cases (htop h).2
  · rw [(htop h).1]
    rfl

theorem ne_nil_of_lookup (h : files.lookup names ≠ some .directory) : names ≠ [] := by
  rintro rfl
  exact h (lookup_top files)

/-- What is found in a map with one change is the change, or was there. -/
theorem update_eq_some {α : Type} {found : List String → Option α} {names others : List String}
    {change : Option α} {value : α} (h : update found names change others = some value) :
    (others = names ∧ change = some value) ∨ (others ≠ names ∧ found others = some value) := by
  by_cases hothers : others = names
  · subst hothers
    rw [Function.update_self] at h
    exact .inl ⟨rfl, h⟩
  · rw [Function.update_of_ne hothers] at h
    exact .inr ⟨hothers, h⟩

theorem lookup_addNode (h : files.lookup names = none) (node : Node) :
    (files.addNode names node).lookup = update files.lookup names (some node) := by
  have hne : names ≠ [] := ne_nil_of_lookup (by rw [h]; exact nofun)
  have habsent : files.nodes.lookup names = none := by
    unfold lookup at h
    rwa [if_neg hne] at h
  funext others
  unfold lookup addNode
  by_cases hothers : others = names
  · subst hothers
    rw [Function.update_self, if_neg hne, List.lookup_append, habsent]
    simp
  · rw [Function.update_of_ne hothers, List.lookup_append, List.lookup_cons,
      beq_false_of_ne hothers, List.lookup_nil, Option.or_none]

theorem lookup_filter (nodes : List (List String × Node)) (keep : List String → Bool)
    (names : List String) :
    (nodes.filter fun node => keep node.1).lookup names =
      if keep names then nodes.lookup names else none := by
  induction nodes with
  | nil => exact (ite_self _).symm
  | cons node nodes ih =>
    obtain ⟨key, value⟩ := node
    by_cases hkey : names = key
    · subst hkey
      by_cases hkeep : keep names = true
      · simp only [List.filter_cons, hkeep, if_true, List.lookup_cons_self]
      · simp only [List.filter_cons, hkeep, if_false, ih, Bool.false_eq_true]
    · rw [List.lookup_cons, beq_false_of_ne hkey, ← ih]
      by_cases hkeep : keep key = true
      · simp only [List.filter_cons, hkeep, if_true, List.lookup_cons, beq_false_of_ne hkey]
      · simp only [List.filter_cons, hkeep, if_false, Bool.false_eq_true]

theorem lookup_removeNode (hne : names ≠ []) (others : List String) :
    (files.removeNode names).lookup others =
      if names <+: others then none else files.lookup others := by
  unfold lookup removeNode
  rw [lookup_filter files.nodes (fun key => !(names.isPrefixOf key))]
  by_cases hothers : others = []
  · subst hothers
    rw [if_pos rfl, if_pos rfl, if_neg (mt List.prefix_nil.mp hne)]
  · rw [if_neg hothers, if_neg hothers]
    by_cases hbelow : names <+: others
    · rw [if_pos hbelow, List.isPrefixOf_iff_prefix.mpr hbelow]
      rfl
    · rw [if_neg hbelow, Bool.eq_false_iff.mpr (mt List.isPrefixOf_iff_prefix.mp hbelow)]
      rfl

/-- Below what is no directory there is nothing. -/
theorem WellFormed.lookup_below (h : files.WellFormed)
    (hnames : files.lookup names ≠ some .directory) {others : List String}
    (hbelow : names <+: others) (hne : others ≠ names) :
    files.lookup others = none := by
  induction others using List.reverseRecOn with
  | nil => exact absurd (List.prefix_nil.mp hbelow).symm hne
  | append_singleton above last ih =>
    have habove : names <+: above := by
      rcases List.prefix_concat_iff.mp hbelow with heq | hprefix
      · exact absurd heq.symm hne
      · exact hprefix
    -- an entry below would make a directory of what is above it
    rcases hlookup : files.lookup (above ++ [last]) with _ | node
    · rfl
    · have hdirectory := h.nested hlookup
      rw [List.dropLast_concat] at hdirectory
      by_cases heq : above = names
      · exact absurd (heq ▸ hdirectory) hnames
      · rw [ih habove heq] at hdirectory
        cases hdirectory

/-- Where a walk has led from an entry of a directory, there is one again. -/
theorem WellFormed.nested_walk (h : files.WellFormed) {above pieces : List String}
    {node : Option Node} (habove : files.lookup above.dropLast = some .directory)
    (hwalk : files.walk above pieces = .ok node) :
    files.lookup (pieces.foldl Path.step above).dropLast = some .directory := by
  induction pieces generalizing above with
  | nil => exact habove
  | cons piece pieces ih =>
    obtain ⟨hdirectory, -, hrest⟩ := walk_cons hwalk
    refine ih ?_ hrest
    unfold Path.step
    split
    · exact habove
    · split
      · exact h.nested habove
      · rw [List.dropLast_concat]
        exact hdirectory

theorem locate_ok {node : Option Node} (h : files.locate path = .ok node) :
    pathFault? path = none ∧ files.walk [] path.pieces = .ok node := by
  unfold locate at h
  split at h
  · cases h
  · next hpath => exact ⟨hpath, h⟩

theorem lookup_of_locate {node : Option Node} (h : files.locate path = .ok node) :
    files.lookup path.names = node := (walk_eq_lookup (locate_ok h).2).symm

theorem locate_mono {node : Option Node}
    (hkept : files.Keeps later)
    (h : files.locate path = .ok node) : later.locate path = .ok (later.lookup path.names) := by
  obtain ⟨hpath, hwalk⟩ := locate_ok h
  rw [locate, hpath]
  exact walk_mono hkept hwalk

theorem locate_setContent {node : Option Node} (h : files.locate path = .ok node) (id : FileId)
    (bytes : Bytes) : (files.setContent id bytes).locate path = .ok node := by
  have hkept : files.Keeps (files.setContent id bytes) := .refl files
  rw [locate_mono hkept h, ← lookup_of_locate h]
  rfl

theorem WellFormed.nested_locate (h : files.WellFormed) {node : Option Node}
    (hlocate : files.locate path = .ok node) :
    files.lookup path.names.dropLast = some .directory :=
  h.nested_walk (lookup_top files) (locate_ok hlocate).2

/-- A name comes into a directory: that of a directory, or of a file that is new. -/
theorem WellFormed.add (h : files.WellFormed) (habsent : files.lookup names = none)
    (hparent : files.lookup names.dropLast = some .directory) {node : Node}
    (hlookup : later.lookup = update files.lookup names (some node))
    (hlength : files.contents.length ≤ later.contents.length)
    (hnew : ∀ id, node = .file id → id = files.contents.length ∧ id < later.contents.length) :
    files.Keeps later ∧ later.WellFormed := by
  have hfresh : ∀ {others id}, files.lookup others = some (.file id) →
      some node ≠ some (.file id) := by
    intro others id hold hnode
    exact Nat.ne_of_lt (h.stored hold) (hnew id (Option.some.inj hnode)).1
  have hkeeps : files.Keeps later := by
    intro others hold
    rw [hlookup, Function.update_of_ne (by rintro rfl; rw [habsent] at hold; cases hold)]
    exact hold
  refine ⟨hkeeps, fun {others id} hfile => ?_, fun {first second id} hfirst hsecond => ?_,
    fun {others found} hfound => ?_⟩
  · rw [hlookup] at hfile
    rcases update_eq_some hfile with ⟨-, hnode⟩ | ⟨-, hold⟩
    · exact (hnew id (Option.some.inj hnode)).2
    · exact Nat.lt_of_lt_of_le (h.stored hold) hlength
  · rw [hlookup] at hfirst hsecond
    rcases update_eq_some hfirst with ⟨rfl, hnode⟩ | ⟨-, hold⟩
    · rcases update_eq_some hsecond with ⟨rfl, -⟩ | ⟨-, hold⟩
      · rfl
      · exact absurd hnode (hfresh hold)
    · rcases update_eq_some hsecond with ⟨-, hnode⟩ | ⟨-, hother⟩
      · exact absurd hnode (hfresh hold)
      · exact h.single hold hother
  · rw [hlookup] at hfound
    rcases update_eq_some hfound with ⟨rfl, -⟩ | ⟨-, hold⟩
    · exact hkeeps _ hparent
    · exact hkeeps _ (h.nested hold)

/-- Only the names of files go when a file takes the place of another. -/
theorem WellFormed.lookup_renamed (h : files.WellFormed) {source target : List String}
    (hsource : files.lookup source ≠ some .directory)
    (htarget : files.lookup target ≠ some .directory) (node : Node) :
    (((files.removeNode source).removeNode target).addNode target node).lookup =
      update (update files.lookup source none) target (some node) := by
  have hremoved : ∀ others, ((files.removeNode source).removeNode target).lookup others =
      if target <+: others then none
      else if source <+: others then none
      else files.lookup others := by
    intro others
    rw [lookup_removeNode (ne_nil_of_lookup htarget), lookup_removeNode (ne_nil_of_lookup hsource)]
  rw [lookup_addNode (by rw [hremoved, if_pos List.prefix_rfl])]
  funext others
  by_cases hothers : others = target
  · rw [hothers, Function.update_self, Function.update_self]
  · rw [Function.update_of_ne hothers, Function.update_of_ne hothers, hremoved]
    by_cases hold : others = source
    · rw [hold, Function.update_self, if_pos List.prefix_rfl, ite_self]
    · rw [Function.update_of_ne hold]
      split
      · next hbelow => exact (h.lookup_below htarget hbelow hothers).symm
      · split
        · next hbelow => exact (h.lookup_below hsource hbelow hold).symm
        · rfl

/-- A file that goes by another name is a file under one name again. -/
theorem WellFormed.move (h : files.WellFormed) {source target : List String} {id : FileId}
    (hsource : files.lookup source = some (.file id))
    (htarget : files.lookup target ≠ some .directory)
    (hparent : files.lookup target.dropLast = some .directory)
    (hlookup : later.lookup = update (update files.lookup source none) target (some (.file id)))
    (hcontents : later.contents = files.contents) : files.Keeps later ∧ later.WellFormed := by
  have hcases : ∀ {others found}, later.lookup others = some found →
      (others = target ∧ found = .file id) ∨
        (others ≠ source ∧ files.lookup others = some found) := by
    intro others found hfound
    rw [hlookup] at hfound
    rcases update_eq_some hfound with ⟨heq, hnode⟩ | ⟨-, hold⟩
    · exact .inl ⟨heq, (Option.some.inj hnode).symm⟩
    · rcases update_eq_some hold with ⟨-, hnone⟩ | hold
      · cases hnone
      · exact .inr hold
  have hkeeps : files.Keeps later := by
    intro others hothers
    rw [hlookup, Function.update_of_ne (by rintro rfl; exact htarget hothers),
      Function.update_of_ne (by rintro rfl; rw [hsource] at hothers; cases hothers)]
    exact hothers
  refine ⟨hkeeps, fun {others other} hothers => ?_, fun {first second other} hfirst hsecond => ?_,
    fun {others found} hfound => ?_⟩
  · rw [hcontents]
    rcases hcases hothers with ⟨-, hid⟩ | ⟨-, hold⟩
    · obtain rfl := Node.file.inj hid
      exact h.stored hsource
    · exact h.stored hold
  · rcases hcases hfirst with ⟨rfl, hid⟩ | ⟨hne, hold⟩
    · rcases hcases hsecond with ⟨rfl, -⟩ | ⟨hne, hold⟩
      · rfl
      · obtain rfl := Node.file.inj hid
        exact absurd (h.single hold hsource) hne
    · rcases hcases hsecond with ⟨rfl, hid⟩ | ⟨-, hother⟩
      · obtain rfl := Node.file.inj hid
        exact absurd (h.single hold hsource) hne
      · exact h.single hold hother
  · rcases hcases hfound with ⟨rfl, -⟩ | ⟨-, hold⟩
    · exact hkeeps _ hparent
    · exact hkeeps _ (h.nested hold)

end BatchStore.FileSystem
