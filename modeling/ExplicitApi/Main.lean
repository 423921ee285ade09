import ExplicitApi.Command.Run
import Std.Time.DateTime.Timestamp

/-! The program: a command is run on a copy of what it looks at, and its changes are written back. -/
namespace ExplicitApi.Program

def spelled (loc : Location) : String :=
  if loc = [] then "/" else String.ofList (loc.flatMap fun name => Path.separator :: name)

/-- Where a location is in the system. -/
def place (loc : Location) := (IO.FS.DirEntry.mk "/" (spelled loc)).path

def locationOf (path : String) : Location :=
  (Path.pieces path.toList).filter fun piece => !Path.isVoid piece

def withDirectories (t : FileTree) (loc : Location) : FileTree :=
  (List.range (loc.length + 1)).foldl (fun t n => t.put (loc.take n) .directory) t

/--
Copies what is at a location, a directory with its contents if `deep`. A link is copied as one to the
place where it ends, of which nothing but the entry is copied; one that ends nowhere leads to itself.
-/
partial def copy (deep : Bool) (t : FileTree) (loc : Location) : IO FileTree := do
  let t := withDirectories t loc.dropLast
  let status ← (place loc).symlinkMetadata
  match status.type with
  | .dir =>
    let t := withDirectories t loc
    if !deep then return t
    (← (place loc).readDir).foldlM (fun t entry => copy true t (loc ++ [entry.fileName.toList])) t
  | .file =>
    let content ← IO.FS.readBinFile (place loc)
    return t.put loc (.file content ⟨status.modified.sec, status.modified.nsec.toNat⟩)
  | .symlink =>
    if !(← (place loc).pathExists) then return t.put loc (.link (spelled loc))
    let target := (← IO.FS.realPath (place loc)).toString
    copy false (t.put loc (.link target)) (locationOf target)
  | .other => return t

/-- Copies the places that a path leads through, and the last with its contents if `deep`. -/
def copyPath (deep : Bool) (t : FileTree) (path : Path) : IO FileTree := do
  let start := if path.isAbsolute then [] else t.home
  go t start (Path.pieces path.spelling.toList)
where
  go (t : FileTree) (here : Location) : List (List Char) → IO FileTree
    | [] => copy deep t here
    | piece :: rest => do
      if Path.isVoid piece then go t here rest
      else if piece = ['.', '.'] then go t here.dropLast rest
      else
        let next := here ++ [piece]
        if !(← (place next).pathExists) then return t
        let t ← copy false t next
        go t (locationOf (← IO.FS.realPath (place next)).toString) rest

def copyPaths (deep : Bool) (t : FileTree) (paths : List Path) : IO FileTree :=
  paths.foldlM (copyPath deep) t

def cacheFile (i : Command.Invocation) : Path :=
  let named := match i.request with
    | .fix r => r.cacheFile
    | .cache _ file => file
    | _ => none
  named.getD Cache.defaultPath

def namedFiles (i : Command.Invocation) : List Path :=
  let validated := match i.request with
    | .validateConfig file => file.toList
    | _ => []
  cacheFile i :: i.config.toList ++ validated ++ Config.fileNames.map Path.mk

def namedDirectories (i : Command.Invocation) : List Path :=
  match i.request with
  | .fix r => r.directory.toList
  | .check r => [r.directory]
  | _ => []

def recordedFiles (t : FileTree) (i : Command.Invocation) : List Path :=
  match Cache.openAt t (cacheFile i) with
  | .ok c => c.files.values.map (·.path)
  | .error _ => []

def invocation? (words : List String) (t : FileTree) : Option Command.Invocation :=
  (Command.Invocation.ofWords (fun name => t.isDirectory ⟨name⟩) words).toOption

/-- Copies all that a command line looks at. -/
def snapshot (words : List String) : IO FileTree := do
  let home := locationOf (← IO.currentDir).toString
  let t ← copy false { FileTree.empty with home } home
  let t ← copyPaths false t (Command.commandNames.map Path.mk)
  match invocation? words t with
  | none => return t
  | some i =>
    let t ← copyPaths false t (namedFiles i)
    let t ← copyPaths false t (recordedFiles t i)
    copyPaths true t (namedDirectories i)

/-- Makes the system agree with a tree where another one differs from it. -/
def writeBack (before after : FileTree) : IO Unit := do
  for (loc, entry) in after.entries.entries do
    if before.lookup loc ≠ some entry then
      match entry with
      | .directory => IO.FS.createDirAll (place loc)
      | .file content _ => IO.FS.writeBinFile (place loc) content
      | .link _ => pure ()
  for (loc, _) in before.entries.entries do
    if after.lookup loc = none then IO.FS.removeFile (place loc)

/-- The tree with the times that the system gave to the files that were written back. -/
def withSystemTimes (before after : FileTree) : IO FileTree :=
  after.entries.entries.foldlM
    (fun t (loc, entry) => do
      match entry with
      | .file content _ =>
        if before.lookup loc = some entry then return t
        let status ← (place loc).metadata
        return t.put loc (.file content ⟨status.modified.sec, status.modified.nsec.toNat⟩)
      | _ => return t)
    after

/-- The entry of a cache with the time that its file has in one tree in place of that in another. -/
def retimedEntry (before after : FileTree) (c : Cache) (e : CacheEntry) : Cache :=
  match before.status e.path, after.status e.path with
  | .ok (.file _ old), .ok (.file _ new) =>
    if e.stamp.modified = old ∧ old ≠ new then
      c.insert e.path { e.stamp with modified := new }
    else c
  | _, _ => c

/-- The tree in which the cache of a run holds the times that the system gave. -/
def withRetimedCache (s : Command.Setting) (words : List String) (before after : FileTree) :
    FileTree :=
  match invocation? words before with
  | none => after
  | some i =>
    match Cache.openAt after (cacheFile i) with
    | .error _ => after
    | .ok c => ((c.files.values.foldl (retimedEntry before after) c).save after s.now).2.2

def setting : IO Command.Setting := do
  let time ← Std.Time.Timestamp.now
  let now := Time.Instant.ofParts? time.val.second.val time.val.nano.val.toNat
  return ⟨now.getD Time.Instant.epoch, ← (← IO.getStdout).isTty⟩

def run (words : List String) : IO UInt32 := do
  let before ← snapshot words
  let s ← setting
  let outcome := Command.run words s before
  writeBack before outcome.tree
  let written ← withSystemTimes before outcome.tree
  writeBack written (withRetimedCache s words outcome.tree written)
  IO.print outcome.output
  IO.eprint outcome.errors
  return outcome.exit

end ExplicitApi.Program

def main (words : List String) : IO UInt32 := ExplicitApi.Program.run words
