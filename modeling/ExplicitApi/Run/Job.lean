import ExplicitApi.Config.Basic
import ExplicitApi.FileTree.Change
import ExplicitApi.Report.Basic
import ExplicitApi.Selection.Basic

/-! Qualifying the files of a tree: one, those of a list, and those under some paths. -/
namespace ExplicitApi

/-- A valid configuration together with the selection that it describes. -/
structure Job where
  config : Config
  selection : Selection
  deriving DecidableEq, Repr

structure Job.Options where
  mode : Mode := .write
  /-- Whether several files may be visited at once, their steps coming in any order. -/
  parallel : Bool := true
  /-- How many files are visited at most. -/
  maxFiles : Option Nat := none
  /-- Whether the run stops at the first failure. -/
  failFast : Bool := false
  exclude : List String := []
  includes : List String := []
  noIgnore : Bool := false
  deriving DecidableEq, Repr, Inhabited

namespace Job

/-- The job of a configuration; one that is not valid has none. -/
def ofConfig (config : Config) : Except Error Job := do
  match config.check with
  | .error cause => throw (.configuration cause)
  | .ok () => pure ()
  let ignoreFile := config.ignoreFile.filter (· != "")
  match Selection.make config.extensions config.patterns ignoreFile with
  | .error cause => throw (.configuration (.invalidFilter cause))
  | .ok selection => return ⟨config, selection⟩

/-- The text of the file that a path leads to, qualified. -/
def examine (j : Job) (tree : FileTree) (path : Path) : Except Error Qualified :=
  match tree.readText path with
  | .ok text => .ok (qualify j.config.rules text)
  | .error cause => .error (.processing path (.unreadable cause))

/-- Writes a qualified text back, unless nothing changed or nothing is to be written. -/
def apply (mode : Mode) (tree : FileTree) (path : Path) (q : Qualified) :
    Except Error (Visit × FileTree) :=
  if !q.isChanged then .ok (.unchanged, tree)
  else if mode.isDry then .ok (.modified ⟨path, q.insertions, false⟩, tree)
  else
    match tree.write path q.text.toUTF8 with
    | .ok tree => .ok (.modified ⟨path, q.insertions, true⟩, tree)
    | .error cause => .error (.processing path (.unwritable cause))

def visit (j : Job) (mode : Mode) (tree : FileTree) (path : Path) :
    Except Error (Visit × FileTree) := do
  apply mode tree path (← j.examine tree path)

/-- What a report says of a file whose visit failed. -/
def failureOf (path : Path) : Error → Failure
  | .processing _ cause => ⟨path, cause.message⟩
  | e => ⟨path, e.message⟩

/-- Visits the files of a list one after another; a failing one is noted and passed over. -/
def visitEach (j : Job) (mode : Mode) : Report × FileTree → List Path → Report × FileTree
  | done, [] => done
  | (report, tree), path :: rest =>
    match j.visit mode tree path with
    | .ok (visit, tree) => visitEach j mode (report.add visit, tree) rest
    | .error e => visitEach j mode (report.add (.failed (failureOf path e)), tree) rest

/-- Visits the files of a list up to the first that fails, at which the run stops. -/
def visitUntilFailure (j : Job) (mode : Mode) :
    Report × FileTree → List Path → Report × FileTree
  | done, [] => done
  | (report, tree), path :: rest =>
    match j.visit mode tree path with
    | .ok (visit, tree) => visitUntilFailure j mode (report.add visit, tree) rest
    | .error e => (report.stopAt (failureOf path e), tree)

/-- Visits a list of files, one after another in any case, and reports on them in path order. -/
def visitAll (j : Job) (options : Job.Options) (now : Time.Instant) (tree : FileTree)
    (files : List Path) : Report × FileTree :=
  let visit := if options.failFast then j.visitUntilFailure else j.visitEach
  let (report, tree) := visit options.mode (Report.start options.mode now, tree) files
  ((report.withFingerprint j.config.fingerprint).sorted, tree)

/-- The selection with the patterns that options add to it. -/
def selectionFor (j : Job) (options : Job.Options) : Except Error Selection := do
  let s ← options.exclude.foldlM (fun s raw => (s.withPattern raw).mapError .pattern) j.selection
  let s ← options.includes.foldlM (fun s raw => (s.withInclude raw).mapError .pattern) s
  return if options.noIgnore then s.withoutIgnoreFiles else s

/-- What one path contributes: itself if it is a selected file, or the selected files inside it. -/
def filesOf (s : Selection) (tree : FileTree) (path : Path) : Except Error (List Path) := do
  if tree.isFile path then return if ← s.selectsFile tree path then [path] else []
  else if tree.isDirectory path then s.filesUnder tree path
  else return []

/-- The files selected by some paths, in path order and without repetition. -/
def files (j : Job) (options : Job.Options) (tree : FileTree) (paths : List Path) :
    Except Error (List Path) := do
  let s ← j.selectionFor options
  let found ← paths.foldlM
    (fun files path => do return PathSet.addAll files (← filesOf s tree path)) ∅
  let files := PathSet.toList found
  return match options.maxFiles with
    | some n => files.take n
    | none => files

/-- Visits the files selected by some paths. -/
def run (j : Job) (options : Job.Options) (now : Time.Instant) (tree : FileTree)
    (paths : List Path) : Except Error (Report × FileTree) := do
  return j.visitAll options now tree (← j.files options tree paths)

end Job

/-- How many rules there are and what they match. -/
structure RuleCount where
  enabled : Nat
  disabled : Nat
  keywords : Nat
  deriving DecidableEq, Repr

namespace RuleCount

def total (c : RuleCount) : Nat := c.enabled + c.disabled

def ofRules (rules : Rules) : RuleCount :=
  let enabled := rules.enabled
  ⟨enabled.length, Declaration.all.length - enabled.length,
    (enabled.flatMap Declaration.keywords).length⟩

end RuleCount

end ExplicitApi
