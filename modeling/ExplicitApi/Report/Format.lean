import ExplicitApi.Json.Printer
import ExplicitApi.Report.Basic
import ExplicitApi.Qualify.Basic
import ExplicitApi.Time.Text

/-! Reports as lines for a console, as JSON, and as annotations for a workflow. -/
namespace ExplicitApi

inductive Layout where
  | human
  | json
  | github
  deriving DecidableEq, Repr, Inhabited

namespace Layout

def all : List Layout := [human, json, github]

def name : Layout → String
  | human => "human"
  | json => "json"
  | github => "github"

def ofName? (name : String) : Option Layout := all.find? fun f => f.name == name

end Layout

structure Style where
  colors : Bool := true
  /-- Whether each insertion is listed under its file. -/
  details : Bool := false
  /-- How many changed files are listed at most. -/
  maxFiles : Option Nat := none
  deriving DecidableEq, Repr, Inhabited

namespace Report

/-- A text between the sequences that switch a colour on and off. -/
def painted (colors : Bool) (code text : String) : String :=
  if colors then "\x1b[" ++ code ++ "m" ++ text ++ "\x1b[0m" else text

def unlines (lines : List String) : String := String.join (lines.map fun line => line ++ "\n")

/-- The lines before a run. -/
def banner (colors : Bool) (root : Path) (mode : Mode) : String :=
  let code := if mode.isDry then "33" else "36"
  unlines ["Scanning Kotlin files in: " ++ root.spelling, painted colors code mode.description]

/-- The changed files that are listed. -/
def listed (options : Style) (r : Report) : List Change :=
  match options.maxFiles with
  | some n => r.files.take n
  | none => r.files

def outcomeLines (options : Style) (o : Change) : List String :=
  ("Fixing visibility in: " ++ o.path.spelling) ::
    if options.details then
      o.insertions.map fun i => "  " ++ painted options.colors "2" i.display
    else []

def summaryLines (options : Style) (s : Summary) : List String :=
  [painted options.colors "1"
      ("Completed processing " ++ toString s.filesProcessed.toNat ++ " files"),
    painted options.colors (if 0 < s.filesModified then "32" else "2")
      ("Modified " ++ toString s.filesModified.toNat ++ " files")] ++
  (if 0 < s.filesCached then
    ["Skipped " ++ toString s.filesCached.toNat ++ " unchanged files (cached)"] else []) ++
  (if s.aborted then ["Stopped at the first failure; remaining files were not processed"] else [])

def humanLines (options : Style) (r : Report) : List String :=
  (listed options r).flatMap (outcomeLines options) ++
    r.failures.map (fun f => painted options.colors "31" f.display) ++
    summaryLines options r.summary

def insertionJson (i : Insertion) : Json :=
  .object [("keyword", .string i.keyword), ("line_number", .ofUInt32 i.line),
    ("name", .string i.name), ("rule_id", .string i.kind.ruleName)]

def outcomeJson (o : Change) : Json :=
  .object [("file_path", .string o.path.spelling),
    ("insertions", .array (o.insertions.map insertionJson)), ("written", .bool o.written)]

def failureJson (f : Failure) : Json :=
  .object [("file_path", .string f.path.spelling), ("message", .string f.message)]

def summaryJson (s : Summary) : Json :=
  .object [("declarations_qualified", .ofUInt64 s.declarationsQualified),
    ("dry_run", .bool s.dryRun), ("execution_time_ms", .ofUInt64 s.executionTime),
    ("files_cached", .ofUInt64 s.filesCached), ("files_failed", .ofUInt64 s.filesFailed),
    ("files_modified", .ofUInt64 s.filesModified),
    ("files_processed", .ofUInt64 s.filesProcessed),
    ("processed_at", .string (s.processedAt.text "+00:00"))]

/-- The members of the JSON format in the order of their names. -/
def json (options : Style) (r : Report) : Json :=
  .object [("config_fingerprint", .ofOption r.fingerprint),
    ("failures", .array (r.failures.map failureJson)),
    ("files", .array ((listed options r).map outcomeJson)),
    ("summary", summaryJson r.summary)]

/-- One annotation for an insertion. -/
def noticeLine (o : Change) (i : Insertion) : String :=
  "::notice file=" ++ o.path.spelling ++ ",line=" ++ toString i.line.toNat ++ ",title=" ++
    i.kind.ruleName ++ "::" ++ (if o.written then "Inserted" else "Missing") ++
    " public qualifier on " ++ i.keyword ++ " " ++ i.name

/-- One annotation for a failure. -/
def errorLine (f : Failure) : String :=
  "::error file=" ++ f.path.spelling ++ ",title=processing::" ++ f.message

def annotationLines (options : Style) (r : Report) : List String :=
  ((listed options r).flatMap fun o => o.insertions.map (noticeLine o)) ++
    r.failures.map errorLine

def format (options : Style) (r : Report) : Layout → String
  | .human => unlines (humanLines options r)
  | .json => (json options r).pretty
  | .github => unlines (annotationLines options r)

end Report

end ExplicitApi
