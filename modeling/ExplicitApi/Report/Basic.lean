import ExplicitApi.Declaration
import ExplicitApi.Path
import ExplicitApi.Time.Instant

/-! What a run did: the files it changed, those it could not, and its counters. -/
namespace ExplicitApi

/-- Whether changed texts are written back. -/
inductive Mode where
  | write
  | dry
  deriving DecidableEq, Repr, Inhabited

namespace Mode

def ofDry (isDry : Bool) : Mode := if isDry then dry else write

def isDry : Mode → Bool
  | write => false
  | dry => true

def name : Mode → String
  | write => "write"
  | dry => "dry_run"

def description : Mode → String
  | write => "Files will be modified"
  | dry => "Dry run mode - no files will be modified"

end Mode

/-- A file whose text changed. -/
structure Change where
  path : Path
  insertions : List Insertion
  written : Bool
  deriving DecidableEq, Repr

/-- A file that could not be read or written. -/
structure Failure where
  path : Path
  message : String
  deriving DecidableEq, Repr

def Failure.display (f : Failure) : String :=
  "Failed to process " ++ f.path.spelling ++ ": " ++ f.message

/-- What became of one visited file. -/
inductive Visit where
  | unchanged
  /-- Skipped, because its content is known to need no change. -/
  | cached
  | modified (outcome : Change)
  | failed (failure : Failure)
  deriving DecidableEq, Repr

structure Summary where
  filesProcessed : UInt64 := 0
  filesModified : UInt64 := 0
  declarationsQualified : UInt64 := 0
  filesCached : UInt64 := 0
  filesFailed : UInt64 := 0
  dryRun : Bool := false
  /-- Whether the run stopped at its first failure. -/
  aborted : Bool := false
  executionTime : UInt64 := 0
  processedAt : Time.Moment
  deriving DecidableEq, Repr

structure Report where
  files : List Change
  failures : List Failure
  summary : Summary
  /-- Names the configuration of the run. -/
  fingerprint : Option String
  deriving DecidableEq, Repr

namespace Report

def start (mode : Mode) (processedAt : Time.Instant) : Report :=
  ⟨[], [], { dryRun := mode.isDry, processedAt := processedAt.toMoment }, none⟩

/-- Takes in the result of one visited file. -/
def add (r : Report) (result : Visit) : Report :=
  let s := { r.summary with filesProcessed := r.summary.filesProcessed + 1 }
  match result with
  | .unchanged => { r with summary := s }
  | .cached => { r with summary := { s with filesCached := s.filesCached + 1 } }
  | .modified outcome =>
    { r with
      files := r.files ++ [outcome]
      summary := { s with
        filesModified := s.filesModified + 1
        declarationsQualified :=
          s.declarationsQualified + .ofNat outcome.insertions.length } }
  | .failed failure =>
    { r with
      failures := r.failures ++ [failure]
      summary := { s with filesFailed := s.filesFailed + 1 } }

/-- Takes in the failure at which the run stops. -/
def stopAt (r : Report) (failure : Failure) : Report :=
  let r := r.add (.failed failure)
  { r with summary := { r.summary with aborted := true } }

def hasChanges (r : Report) : Bool := 0 < r.summary.filesModified

def withExecutionTime (r : Report) (milliseconds : UInt64) : Report :=
  { r with summary := { r.summary with executionTime := milliseconds } }

def withProcessedAt (r : Report) (time : Time.Moment) : Report :=
  { r with summary := { r.summary with processedAt := time } }

def withFingerprint (r : Report) (fingerprint : String) : Report :=
  { r with fingerprint := some fingerprint }

/-- Whether `p` does not come after `q`. -/
def precedes (p q : Path) : Bool := compare p q != .gt

/-- Puts files and failures in path order; those of one path stay as they are. -/
def sorted (r : Report) : Report :=
  { r with
    files := r.files.mergeSort fun a b => precedes a.path b.path
    failures := r.failures.mergeSort fun a b => precedes a.path b.path }

end Report

end ExplicitApi
