import ExplicitApi.FileTree.Resolve

/-! Changing a file tree through paths. -/
namespace ExplicitApi.FileTree

/-- Gives the file at a location new content and a new time. -/
def putContent (t : FileTree) (loc : Location) (content : ByteArray) : FileTree :=
  let t := t.tick
  t.put loc (.file content t.clock)

def writeAt (t : FileTree) (loc : Location) (content : ByteArray) : Except IoError FileTree :=
  if t.writable loc then .ok (t.putContent loc content) else .error .permissionDenied

/-- Writes the file that a path leads to, which is made if only its name is missing. -/
def write (t : FileTree) (path : Path) (content : ByteArray) : Except IoError FileTree := do
  match ← t.resolve true path with
  | .existing loc =>
    if t.isDirectoryAt loc then throw .isDirectory
    t.writeAt loc content
  | .absent loc asDirectory =>
    if asDirectory then throw .isDirectory
    t.writeAt loc content

def makeDirectory (t : FileTree) (path : Path) : Except IoError FileTree := do
  match ← t.resolve false path with
  | .existing _ => throw .alreadyExists
  | .absent loc _ => return t.put loc .directory

/-- Makes a directory unless there is one already. -/
def ensureDirectory (t : FileTree) (path : Path) : Except IoError FileTree :=
  match t.makeDirectory path with
  | .error e => if t.isDirectory path then .ok t else .error e
  | made => made

/-- Makes a directory and, as far as they are missing, the directories above it. -/
def makeDirectories (t : FileTree) (path : Path) : Except IoError FileTree :=
  if path.isEmpty then .ok t else go (path.components.length + 1) t path
where
  go : Nat → FileTree → Path → Except IoError FileTree
    | 0, t, path => t.ensureDirectory path
    | fuel + 1, t, path =>
      match t.makeDirectory path, path.parent? with
      | .error .notFound, some above =>
        if above.isEmpty then t.ensureDirectory path
        else do (← go fuel t above).ensureDirectory path
      | _, _ => t.ensureDirectory path

/-- Removes the file or link that a path names. -/
def removeFile (t : FileTree) (path : Path) : Except IoError FileTree := do
  match ← t.resolve false path with
  | .existing loc =>
    if t.isDirectoryAt loc then throw .isDirectory
    return t.removeAt loc
  | .absent .. => throw .notFound

/-- Removes what a path names, be it file, link or directory, and tells whether it was there. -/
def remove (t : FileTree) (path : Path) : Bool × FileTree :=
  match t.resolve false path with
  | .ok (.existing loc) => (true, t.removeAt loc)
  | _ => (false, t)

/-- Makes a link unless the name is taken. -/
def link (t : FileTree) (path : Path) (target : String) : Except IoError FileTree := do
  match ← t.resolve false path with
  | .existing _ => throw .alreadyExists
  | .absent loc _ => return t.put loc (.link target)

/-- Sets the time of the file that a path leads to, if there is one. -/
def touch (t : FileTree) (path : Path) (modified : Timestamp) : FileTree :=
  match t.locate path with
  | .ok loc =>
    match t.lookup loc with
    | some (.file content _) => t.put loc (.file content modified)
    | _ => t
  | .error _ => t

/-- What a name is bound to. -/
inductive Content where
  | bytes (content : ByteArray)
  | link (target : String)
  | directory

/-- Puts new content at a path, with the directories above it; a file may be given its time. -/
def place (t : FileTree) (path : Path) (content : Content) (modified : Option Timestamp) :
    Except IoError FileTree := do
  let t ← match path.parent? with
    | some above => t.makeDirectories above
    | none => pure t
  match content with
  | .bytes content =>
    let t ← t.write path content
    return match modified with
      | some time => t.touch path time
      | none => t
  | .link target => t.link path target
  | .directory => t.makeDirectories path

end ExplicitApi.FileTree
