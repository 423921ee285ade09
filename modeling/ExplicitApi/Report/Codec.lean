import ExplicitApi.Json.Decode
import ExplicitApi.Report.Basic

/-! Reports as stored JSON values. What is written reads back as the same report. -/
namespace ExplicitApi

namespace Insertion

def toJson (i : Insertion) : Json :=
  .object [("kind", .string i.kind.name), ("line_number", .ofUInt32 i.line),
    ("keyword", .string i.keyword), ("name", .string i.name)]

end Insertion

namespace Change

def toJson (o : Change) : Json :=
  .object [("file_path", .string o.path.spelling),
    ("insertions", .array (o.insertions.map Insertion.toJson)), ("written", .bool o.written)]

end Change

namespace Failure

def toJson (f : Failure) : Json :=
  .object [("file_path", .string f.path.spelling), ("message", .string f.message)]

end Failure

namespace Summary

def toJson (s : Summary) : Json :=
  .object [("files_processed", .ofUInt64 s.filesProcessed),
    ("files_modified", .ofUInt64 s.filesModified),
    ("declarations_qualified", .ofUInt64 s.declarationsQualified),
    ("files_cached", .ofUInt64 s.filesCached), ("files_failed", .ofUInt64 s.filesFailed),
    ("dry_run", .bool s.dryRun), ("aborted", .bool s.aborted),
    ("execution_time_ms", .ofUInt64 s.executionTime),
    ("processed_at", .string (s.processedAt.text "Z"))]

end Summary

namespace Report

def toJson (r : Report) : Json :=
  .object [("files", .array (r.files.map Change.toJson)),
    ("failures", .array (r.failures.map Failure.toJson)), ("summary", r.summary.toJson),
    ("config_fingerprint", .ofOption r.fingerprint)]

end Report

open Json (Decoder decodeRecord required)

def decodePath : Decoder Path := fun v => (Json.decodeString v).map Path.mk

def decodeUInt64 : Decoder UInt64 := fun v => (Json.decodeUnsigned 64 v).map .ofNat

def decodeUInt32 : Decoder UInt32 := fun v => (Json.decodeUnsigned 32 v).map .ofNat

namespace Declaration

def ofName (name : String) : Except Mismatch Declaration :=
  match all.find? fun kind => kind.name == name with
  | some kind => .ok kind
  | none => .error (.unknownName name (all.map (·.name)))

/-- The name of a kind, or an object that binds this name alone to null. -/
def ofJson : Decoder Declaration
  | .string name => ofName name
  | .object [(name, .null)] => ofName name
  | v => .error (.wrongType v.found .string)

end Declaration

namespace Insertion

structure Parts where
  kind : Option Declaration := none
  line : Option UInt32 := none
  keyword : Option String := none
  name : Option String := none

def fields : List (Json.Field Parts) :=
  [.ofDecoder "kind" (·.kind) (fun s v => { s with kind := some v }) Declaration.ofJson,
    .ofDecoder "line_number" (·.line) (fun s v => { s with line := some v }) decodeUInt32,
    .ofDecoder "keyword" (·.keyword) (fun s v => { s with keyword := some v }) Json.decodeString,
    .ofDecoder "name" (·.name) (fun s v => { s with name := some v }) Json.decodeString]

def ofJson : Decoder Insertion := fun v => do
  let p ← decodeRecord ⟨"Insertion", fields, .recordOfLength "Insertion" 4, false⟩ {} v
  return ⟨← required "kind" p.kind, ← required "line_number" p.line,
    ← required "keyword" p.keyword, ← required "name" p.name⟩

end Insertion

namespace Change

structure Parts where
  path : Option Path := none
  insertions : Option (List Insertion) := none
  written : Option Bool := none

def fields : List (Json.Field Parts) :=
  [.ofDecoder "file_path" (·.path) (fun s v => { s with path := some v }) decodePath,
    .ofDecoder "insertions" (·.insertions) (fun s v => { s with insertions := some v })
      (Json.decodeList Insertion.ofJson),
    .ofDecoder "written" (·.written) (fun s v => { s with written := some v }) Json.decodeBool]

def ofJson : Decoder Change := fun v => do
  let p ← decodeRecord ⟨"FileOutcome", fields, .recordOfLength "FileOutcome" 3, false⟩ {} v
  return ⟨← required "file_path" p.path, ← required "insertions" p.insertions,
    ← required "written" p.written⟩

end Change

namespace Failure

structure Parts where
  path : Option Path := none
  message : Option String := none

def fields : List (Json.Field Parts) :=
  [.ofDecoder "file_path" (·.path) (fun s v => { s with path := some v }) decodePath,
    .ofDecoder "message" (·.message) (fun s v => { s with message := some v }) Json.decodeString]

def ofJson : Decoder Failure := fun v => do
  let p ← decodeRecord ⟨"FileFailure", fields, .recordOfLength "FileFailure" 2, false⟩ {} v
  return ⟨← required "file_path" p.path, ← required "message" p.message⟩

end Failure

namespace Summary

structure Parts where
  filesProcessed : Option UInt64 := none
  filesModified : Option UInt64 := none
  declarationsQualified : Option UInt64 := none
  filesCached : Option UInt64 := none
  filesFailed : Option UInt64 := none
  dryRun : Option Bool := none
  aborted : Option Bool := none
  executionTime : Option UInt64 := none
  processedAt : Option Time.Instant := none

def fields : List (Json.Field Parts) :=
  [.ofDecoder "files_processed" (·.filesProcessed)
      (fun s v => { s with filesProcessed := some v }) decodeUInt64,
    .ofDecoder "files_modified" (·.filesModified)
      (fun s v => { s with filesModified := some v }) decodeUInt64,
    .ofDecoder "declarations_qualified" (·.declarationsQualified)
      (fun s v => { s with declarationsQualified := some v }) decodeUInt64,
    .ofDecoder "files_cached" (·.filesCached)
      (fun s v => { s with filesCached := some v }) decodeUInt64,
    .ofDecoder "files_failed" (·.filesFailed)
      (fun s v => { s with filesFailed := some v }) decodeUInt64,
    .ofDecoder "dry_run" (·.dryRun) (fun s v => { s with dryRun := some v }) Json.decodeBool,
    .ofDecoder "aborted" (·.aborted) (fun s v => { s with aborted := some v }) Json.decodeBool,
    .ofDecoder "execution_time_ms" (·.executionTime)
      (fun s v => { s with executionTime := some v }) decodeUInt64,
    .ofDecoder "processed_at" (·.processedAt)
      (fun s v => { s with processedAt := some v }) Json.decodeTime]

/-- A missing `aborted` means that the run was not. -/
def ofJson : Decoder Summary := fun v => do
  let p ← decodeRecord ⟨"FixSummary", fields, .recordOfLength "FixSummary" 9, false⟩ {} v
  return {
    filesProcessed := ← required "files_processed" p.filesProcessed
    filesModified := ← required "files_modified" p.filesModified
    declarationsQualified := ← required "declarations_qualified" p.declarationsQualified
    filesCached := ← required "files_cached" p.filesCached
    filesFailed := ← required "files_failed" p.filesFailed
    dryRun := ← required "dry_run" p.dryRun
    aborted := p.aborted.getD false
    executionTime := ← required "execution_time_ms" p.executionTime
    processedAt := (← required "processed_at" p.processedAt).toMoment }

end Summary

namespace Report

structure Parts where
  files : Option (List Change) := none
  failures : Option (List Failure) := none
  summary : Option Summary := none
  fingerprint : Option (Option String) := none

def fields : List (Json.Field Parts) :=
  [.ofDecoder "files" (·.files) (fun s v => { s with files := some v })
      (Json.decodeList Change.ofJson),
    .ofDecoder "failures" (·.failures) (fun s v => { s with failures := some v })
      (Json.decodeList Failure.ofJson),
    .ofDecoder "summary" (·.summary) (fun s v => { s with summary := some v }) Summary.ofJson,
    .ofDecoder "config_fingerprint" (·.fingerprint) (fun s v => { s with fingerprint := some v })
      (Json.decodeOption Json.decodeString)]

/-- Reads a report back; its fingerprint may be missing or null. -/
def ofJson : Decoder Report := fun v => do
  let p ← decodeRecord ⟨"FixReport", fields, .recordOfLength "FixReport" 4, false⟩ {} v
  return ⟨← required "files" p.files, ← required "failures" p.failures,
    ← required "summary" p.summary, p.fingerprint.getD none⟩

end Report

end ExplicitApi
