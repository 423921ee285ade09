import ExplicitApi.FileTree.Basic
import ExplicitApi.Path

/-! Where paths lead. Links are followed, and every piece but the last must be a directory. -/
namespace ExplicitApi.FileTree

/-- What a path leads to. -/
inductive Target where
  | existing (loc : Location)
  /-- A free name in a directory, perhaps written so that only a directory could have it. -/
  | absent (loc : Location) (asDirectory : Bool)
  deriving DecidableEq, Repr

/-- How many links one path may pass. -/
def maxLinks : Nat := 40

/-- Follows `pieces` from the directory at `here`; a link in last place only if `follow` says so. -/
def follow (t : FileTree) (followLast : Bool) (links : Nat) (here : Location) :
    List (List Char) → Except IoError Target
  | [] => .ok (.existing here)
  | piece :: rest =>
    if Path.isVoid piece then t.follow followLast links here rest
    else if piece = ['.', '.'] then t.follow followLast links here.dropLast rest
    else
      let next := here ++ [piece]
      match t.lookup next with
      | none =>
        if rest.all Path.isVoid then .ok (.absent next (!rest.isEmpty)) else .error .notFound
      | some .directory => t.follow followLast links next rest
      | some (.file ..) => if rest = [] then .ok (.existing next) else .error .notDirectory
      | some (.link target) =>
        if rest = [] ∧ !followLast then .ok (.existing next)
        else match links with
          | 0 => .error .tooManyLinks
          | links + 1 =>
            let start := if target.toList.head? = some Path.separator then [] else here
            t.follow followLast links start (Path.pieces target.toList ++ rest)
  termination_by pieces => (links, pieces.length)

def resolve (t : FileTree) (followLast : Bool) (path : Path) : Except IoError Target :=
  if path.isEmpty then .error .notFound
  else
    let start := if path.isAbsolute then [] else t.home
    t.follow followLast maxLinks start (Path.pieces path.spelling.toList)

/-- The location that a path leads to, when something is there. -/
def locate (t : FileTree) (path : Path) : Except IoError Location := do
  match ← t.resolve true path with
  | .existing loc => return loc
  | .absent .. => throw .notFound

def entry (t : FileTree) (path : Path) : Except IoError Entry := do
  match t.lookup (← t.locate path) with
  | some entry => return entry
  | none => throw .notFound

def isFile (t : FileTree) (path : Path) : Bool :=
  match t.entry path with
  | .ok (.file ..) => true
  | _ => false

def isDirectory (t : FileTree) (path : Path) : Bool :=
  match t.entry path with
  | .ok .directory => true
  | _ => false

def hasPath (t : FileTree) (path : Path) : Bool := (t.entry path).isOk

/-- The bytes of the file that a path leads to. -/
def read (t : FileTree) (path : Path) : Except IoError ByteArray := do
  match ← t.entry path with
  | .file content _ => return content
  | _ => throw .isDirectory

def readText (t : FileTree) (path : Path) : Except IoError String := do
  match String.fromUTF8? (← t.read path) with
  | some text => return text
  | none => throw .invalidUtf8

/-- What can be told of a path without reading it. -/
inductive Status where
  | file (size : Nat) (modified : Timestamp)
  | directory
  deriving DecidableEq, Repr

def status (t : FileTree) (path : Path) : Except IoError Status := do
  match ← t.entry path with
  | .file content modified => return .file content.size modified
  | _ => return .directory

/-- The absolute spelling of a path. -/
def absolute (t : FileTree) (path : Path) : Path :=
  let home : Path := ⟨String.ofList (t.home.flatMap fun name => Path.separator :: name)⟩
  if path.isAbsolute then path else home.join path.spelling

/-- The paths of all that lies under a root, in the order of a walk by names; links are not entered. -/
def walk (t : FileTree) (root : Path) : List Path :=
  match t.locate root with
  | .error _ => []
  | .ok loc =>
    root :: if t.isDirectoryAt loc then
      (t.inside loc).map fun e =>
        (e.1.drop loc.length).foldl (fun path name => path.join (String.ofList name)) root
    else []

end ExplicitApi.FileTree
