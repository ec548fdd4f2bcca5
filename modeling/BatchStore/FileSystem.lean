import BatchStore.Bytes
import BatchStore.Device.Error
import BatchStore.Path

/-!
# A file system

A tree of directories and files. A file is an object of its own: it outlives
its name while it is held open, and a lock belongs to the file and not to the
name. The top directory always exists.
-/

namespace BatchStore

abbrev FileId := Nat

/-- What a name stands for. -/
inductive Node where
  | directory
  | file (id : FileId)
  deriving DecidableEq, Repr

structure FileSystem where
  /-- The named objects below the top directory. -/
  nodes : List (List String × Node)
  /-- The contents of every file ever made, by number. -/
  contents : List Bytes
  /-- The files that are locked. -/
  locked : List FileId
  deriving DecidableEq, Repr

namespace FileSystem

def empty : FileSystem := ⟨[], [], []⟩

/-- The object of that very name. -/
def lookup (files : FileSystem) (names : List String) : Option Node :=
  if names = [] then some .directory else files.nodes.lookup names

/-- The most bytes that a name may have. -/
def maxName : Nat := 255

/-- The bytes that the text of a path has to stay below. -/
def pathLimit : Nat := 4096

/-- Why a path is refused before any of it is followed. -/
def pathFault? (path : Path) : Option FileError :=
  if path.text.toList.contains (Char.ofNat 0) then some .zeroInPath
  else if pathLimit ≤ path.text.utf8ByteSize then some .nameTooLong
  else none

/-- Follows pieces of a path from a directory: the object they lead to, `none`
when only the last of them names nothing, and an error when a name is too long
or an earlier piece leads to nothing or to no directory. -/
def walk (files : FileSystem) (above : List String) :
    List String → Except FileError (Option Node)
  | [] => .ok (files.lookup above)
  | piece :: below =>
    match files.lookup above with
    | some .directory =>
      if maxName < piece.utf8ByteSize then .error .nameTooLong
      else files.walk (Path.step above piece) below
    | some (.file _) => .error .notADirectory
    | none => .error .notFound

def locate (files : FileSystem) (path : Path) : Except FileError (Option Node) :=
  match pathFault? path with
  | some error => .error error
  | none => files.walk [] path.pieces

def find? (files : FileSystem) (path : Path) : Option Node :=
  match files.locate path with
  | .ok node => node
  | .error _ => none

def exists? (files : FileSystem) (path : Path) : Bool := (files.find? path).isSome

def isDirectory (files : FileSystem) (path : Path) : Bool := files.find? path = some .directory

/-- What a file holds. -/
def content (files : FileSystem) (id : FileId) : Bytes := files.contents.getD id []

def setContent (files : FileSystem) (id : FileId) (bytes : Bytes) : FileSystem :=
  { files with contents := files.contents.set id bytes }

def addNode (files : FileSystem) (names : List String) (node : Node) : FileSystem :=
  { files with nodes := files.nodes ++ [(names, node)] }

/-- Takes a name away, and the names below it. -/
def removeNode (files : FileSystem) (names : List String) : FileSystem :=
  { files with nodes := files.nodes.filter fun node => !(names.isPrefixOf node.1) }

/-- Takes away the names below a name. -/
def removeBelow (files : FileSystem) (names : List String) : FileSystem :=
  { files with
    nodes := files.nodes.filter fun node => !(names.isPrefixOf node.1) || node.1 = names }

/-- Makes a new, empty file under a name. -/
def addFile (files : FileSystem) (names : List String) : FileId × FileSystem :=
  let id := files.contents.length
  (id, { files.addNode names (.file id) with contents := files.contents ++ [[]] })

/-- What keeps a path that ends in a slash from naming a file: the way to its
last piece, or the slash. -/
def slashFault (files : FileSystem) (path : Path) : FileError :=
  match files.walk [] (path.bare.pieces.dropLast ++ ["."]) with
  | .error error => error
  | .ok _ => .isADirectory

/-- The file of that name, made when there is none. A path that ends in a slash
names no file. -/
def openFile (files : FileSystem) (path : Path) : Except FileError FileId × FileSystem :=
  match pathFault? path with
  | some error => (.error error, files)
  | none =>
    if path.endsInSlash then (.error (files.slashFault path), files)
    else
      match files.walk [] path.pieces with
      | .error error => (.error error, files)
      | .ok (some .directory) => (.error .isADirectory, files)
      | .ok (some (.file id)) => (.ok id, files)
      | .ok none =>
        let (id, files) := files.addFile path.names
        (.ok id, files)

/-- Makes the file hold these bytes and nothing else. -/
def write (files : FileSystem) (path : Path) (bytes : Bytes) :
    Except FileError Unit × FileSystem :=
  match files.openFile path with
  | (.error error, files) => (.error error, files)
  | (.ok id, files) => (.ok (), files.setContent id bytes)

def read (files : FileSystem) (path : Path) : Except FileError Bytes :=
  match files.locate path with
  | .error error => .error error
  | .ok none => .error .notFound
  | .ok (some .directory) => .error .isADirectory
  | .ok (some (.file id)) => .ok (files.content id)

/-- Makes a directory where its parent is there and it is not. -/
def makeDirectory (files : FileSystem) (path : Path) : Except FileError Unit × FileSystem :=
  match files.locate path.bare with
  | .error error => (.error error, files)
  | .ok (some _) => (.error .alreadyExists, files)
  | .ok none => (.ok (), files.addNode path.names .directory)

/-- Makes a directory unless it is there already. -/
def ensureDirectory (files : FileSystem) (path : Path) : Except FileError Unit × FileSystem :=
  match files.makeDirectory path with
  | (.ok _, files) => (.ok (), files)
  | (.error error, files) =>
    if files.isDirectory path then (.ok (), files) else (.error error, files)

/-- Makes a directory and, where that fails for want of them, first those that
the path leads through. A single dot at the end leads to a directory that is
there and makes none. -/
def makeDirectories (files : FileSystem) (path : Path) : Except FileError Unit × FileSystem :=
  match files.ensureDirectory path with
  | (.error .notFound, files) =>
    match h : path.parent? with
    | none => (.error .notFound, files)
    | some parent =>
      have := Path.length_parent? h
      match files.makeDirectories parent with
      | (.error error, files) => (.error error, files)
      | (.ok _, files) => files.ensureDirectory path
  | done => done
termination_by path.pieces.length

/-- Gives a file another name, taking the place of a file that has it. -/
def rename (files : FileSystem) (source target : Path) : Except FileError Unit × FileSystem :=
  match files.locate source, files.locate target with
  | .error error, _ => (.error error, files)
  | _, .error error => (.error error, files)
  | .ok (some (.file _)), .ok (some .directory) => (.error .isADirectory, files)
  | .ok (some (.file id)), .ok _ =>
    let cleared := (files.removeNode source.names).removeNode target.names
    (.ok (), cleared.addNode target.names (.file id))
  | .ok _, .ok _ => (.error .notFound, files)

/-- Takes away a file, or a directory with all below it. A directory is emptied
first, and the path is followed again to take away the directory itself: it stays
when the path led through what was below it, and when the path ends in a single
dot, which is no name to take away. -/
def remove (files : FileSystem) (path : Path) : Except FileError Unit × FileSystem :=
  match files.locate path with
  | .error error => (.error error, files)
  | .ok none => (.error .notFound, files)
  | .ok (some (.file _)) => (.ok (), files.removeNode path.names)
  | .ok (some .directory) =>
    let emptied := files.removeBelow path.names
    if !emptied.isDirectory path then (.ok (), emptied)
    else if path.bare.pieces.getLast? = some "." then (.error .invalidArgument, emptied)
    else (.ok (), emptied.removeNode path.names)

/-- The names below a directory, in order; a directory's name ends in a slash.
Nothing is below a path that leads to no directory. -/
def list (files : FileSystem) (path : Path) : List String :=
  if files.isDirectory path then
    let depth := path.names.length
    let below := files.nodes.filter fun node =>
      path.names.isPrefixOf node.1 && depth < node.1.length
    let shown := below.map fun (names, node) =>
      let name := "/".intercalate (names.drop depth)
      if node = .directory then name ++ "/" else name
    shown.mergeSort (· ≤ ·)
  else []

/-- Locks a file unless it is locked already. -/
def tryLock (files : FileSystem) (id : FileId) : Option FileSystem :=
  if id ∈ files.locked then none else some { files with locked := id :: files.locked }

def unlock (files : FileSystem) (id : FileId) : FileSystem :=
  { files with locked := files.locked.filter (· ≠ id) }

end FileSystem

end BatchStore
