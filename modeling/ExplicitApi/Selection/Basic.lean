import ExplicitApi.FileTree.Resolve
import ExplicitApi.Selection.Pattern

/-! Which files are selected: by extension, by patterns, and by ignore files on the way to them. -/
namespace ExplicitApi

structure Selection where
  /-- Suffixes of the paths that are selected. -/
  extensions : List String
  /-- Later patterns override earlier ones. -/
  patterns : List PathPattern
  /-- When there are any, a file must match one of them. -/
  includes : List PathPattern
  /-- The name of the ignore files, when they count. -/
  ignoreFile : Option String
  deriving DecidableEq, Repr

namespace Selection

def make (extensions patterns : List String) (ignoreFile : Option String) :
    Except PatternError Selection := do
  return ⟨extensions, ← patterns.mapM PathPattern.parse, [], ignoreFile⟩

def withPattern (s : Selection) (raw : String) : Except PatternError Selection := do
  return { s with patterns := s.patterns ++ [← PathPattern.parse raw] }

def withInclude (s : Selection) (raw : String) : Except PatternError Selection := do
  return { s with includes := s.includes ++ [← PathPattern.parse raw] }

def withoutIgnoreFiles (s : Selection) : Selection := { s with ignoreFile := none }

def hasExtension (s : Selection) (path : Path) : Bool :=
  s.extensions.any fun extension => extension.toList.isSuffixOf path.spelling.toList

/-- Whether extension, includes and patterns select a path, given as they are to see it. -/
def selectsByName (s : Selection) (path relative : Path) : Bool :=
  s.hasExtension path &&
    (s.includes.isEmpty || s.includes.any fun p => p.isMatch relative) &&
    PathPattern.verdict s.patterns relative true

/-- The directories whose ignore files count for a file, from the root of the walk down to it. -/
def ignoreDirectories (root : Option Path) (path : Path) : List Path :=
  match root.filter path.startsWith with
  | none => path.properAncestors.take 1
  | some root =>
    let above := path.properAncestors
    let kept := above.takeWhile fun dir => !dir.same root
    (kept ++ (above.drop kept.length).take 1).reverse

/-- The patterns of the ignore file in a directory. -/
def ignorePatterns (tree : FileTree) (name : String) (directory : Path) :
    Except Error (List PathPattern) :=
  let file := directory.join name
  if tree.isFile file then
    match tree.readText file with
    | .ok content => .ok (PathPattern.ofLines content)
    | .error cause => .error (.configuration (.unreadableIgnoreFile file cause))
  else .ok []

/-- The patterns of the ignore files read so far, under the directories that hold them. -/
abbrev IgnoreTable := OrderedMap (List Path.Component) (List PathPattern)

/-- What is decided with the ignore files at hand that were read before. -/
abbrev Consulting := StateT IgnoreTable (Except Error)

/-- The patterns of the ignore file in a directory, which is read only once. -/
def patternsIn (tree : FileTree) (name : String) (directory : Path) :
    Consulting (List PathPattern) := do
  match (← get).find? directory.components with
  | some patterns => return patterns
  | none =>
    let patterns ← ignorePatterns tree name directory
    modify fun table => table.insert directory.components patterns
    return patterns

/-- Whether a file is excluded after one more ignore file, given whether it was before. -/
def isIgnoredAfter (path : Path) (ignored : Bool) (directory : Path) (patterns : List PathPattern) :
    Bool :=
  match path.relativeTo? directory with
  | some relative => !PathPattern.verdict patterns relative (!ignored)
  | none => ignored

/-- Whether the ignore files from the root down to a file's directory exclude it; the last decides. -/
def isIgnored (tree : FileTree) (name : String) (root : Option Path) (path : Path) :
    Consulting Bool :=
  (ignoreDirectories root path).foldlM
    (fun ignored directory => do
      return isIgnoredAfter path ignored directory (← patternsIn tree name directory))
    false

/-- Whether a file is selected, in a walk from a root or asked for by itself. -/
def selects (s : Selection) (tree : FileTree) (root : Option Path) (path : Path) :
    Consulting Bool := do
  let relative := (root.bind path.relativeTo?).getD path
  if s.selectsByName path relative then
    match s.ignoreFile with
    | some name => return !(← isIgnored tree name root path)
    | none => return true
  else return false

/-- Whether a file asked for by itself is selected. -/
def selectsFile (s : Selection) (tree : FileTree) (path : Path) : Except Error Bool :=
  (s.selects tree none path).run' ∅

end Selection

/-- Paths without repetition in the order of their components, each as it was first spelled. -/
abbrev PathSet := OrderedMap (List Path.Component) Path

namespace PathSet

def add (s : PathSet) (path : Path) : PathSet := s.insertIfNew path.components path

def addAll (s : PathSet) (paths : List Path) : PathSet := paths.foldl add s

def toList (s : PathSet) : List Path := s.values

end PathSet

namespace Selection

/-- The selected files under a root, in path order. -/
def filesUnder (s : Selection) (tree : FileTree) (root : Path) : Except Error (List Path) := do
  let found ← (((tree.walk root).filter tree.isFile).filterM (s.selects tree (some root))).run' ∅
  return (PathSet.addAll ∅ found).toList

end Selection

end ExplicitApi
