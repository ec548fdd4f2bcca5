/-!
# Paths

A path is written as its pieces between slashes. An empty piece or a single dot
stays where it is, and a double dot takes back the name before it.
-/

namespace BatchStore

structure Path where
  pieces : List String
  deriving DecidableEq, Repr

namespace Path

def ofText (text : String) : Path := ⟨text.splitOn "/"⟩

def text (path : Path) : String := "/".intercalate path.pieces

/-- The path of an entry of the directory at this path. -/
def child (path : Path) (name : String) : Path :=
  match path.pieces.getLast? with
  | some "" => ⟨path.pieces.dropLast ++ [name]⟩
  | _ => ⟨path.pieces ++ [name]⟩

/-- Where a piece leads from the object of the given names. -/
def step (above : List String) (piece : String) : List String :=
  if piece = "" ∨ piece = "." then above
  else if piece = ".." then above.dropLast
  else above ++ [piece]

/-- The names from the top directory down to the object. -/
def names (path : Path) : List String := path.pieces.foldl step []

/-- Whether the path is written as that of a directory. -/
def endsInSlash (path : Path) : Bool := path.pieces.getLast? = some ""

/-- Pieces in reverse without those at the front that pass the test. -/
def trimmed (test : String → Bool) (pieces : List String) : List String :=
  (pieces.reverse.dropWhile test).reverse

/-- The path without slashes at its end. -/
def bare (path : Path) : Path := ⟨trimmed (· = "") path.pieces⟩

/-- Whether a piece stays where it is. -/
def isIdle (piece : String) : Bool := piece = "" || piece = "."

/-- The path without its last piece that is not idle, and without idle pieces
at its end; `none` if there is no such piece. -/
def parent? (path : Path) : Option Path :=
  match trimmed isIdle path.pieces with
  | [] => none
  | pieces => some ⟨trimmed isIdle pieces.dropLast⟩

theorem length_trimmed (test : String → Bool) (pieces : List String) :
    (trimmed test pieces).length ≤ pieces.length := by
  have fewer := (List.dropWhile_sublist test : List.Sublist _ pieces.reverse).length_le
  rw [trimmed, List.length_reverse]
  rwa [List.length_reverse] at fewer

/-- The parent of a path has fewer pieces. -/
theorem length_parent? {path parent : Path} (h : path.parent? = some parent) :
    parent.pieces.length < path.pieces.length := by
  unfold parent? at h
  split at h
  · simp at h
  · next hne =>
    have shorter := length_trimmed isIdle path.pieces
    have trimmedAgain := length_trimmed isIdle (trimmed isIdle path.pieces).dropLast
    have nonempty := List.length_pos_iff.2 hne
    rw [List.length_dropLast] at trimmedAgain
    simp only [Option.some.injEq] at h
    simp only [← h]
    omega

end Path

end BatchStore
