import ExplicitApi.Cache.Basic
import ExplicitApi.Json.Decode
import ExplicitApi.Json.Parser
import ExplicitApi.Json.Printer

/-! Cache files: how a record is written, read back and saved. -/
namespace ExplicitApi

open Json (Decoder decodeRecord required)

/-- The version of the format. -/
def Cache.version : UInt32 := 1

namespace Timestamp

/-- A time as the seconds and nanoseconds since 1970; an earlier one cannot be written. -/
def toJson? (t : Timestamp) : Option Json :=
  if t.seconds < 0 then none
  else some (.object [("secs_since_epoch", .ofUInt64 (.ofNat t.seconds.toNat)),
    ("nanos_since_epoch", .ofUInt64 (.ofNat t.nanoseconds))])

structure Parts where
  seconds : Option Nat := none
  nanoseconds : Option Nat := none

def fields : List (Json.Field Parts) :=
  [.ofDecoder "secs_since_epoch" (·.seconds) (fun s v => { s with seconds := some v })
      (Json.decodeUnsigned 64),
    .ofDecoder "nanos_since_epoch" (·.nanoseconds) (fun s v => { s with nanoseconds := some v })
      (Json.decodeUnsigned 32)]

/-- Reads a time; whole seconds among the nanoseconds are carried over. -/
def ofJson : Decoder Timestamp := fun v => do
  let p ← decodeRecord ⟨"SystemTime", fields, .record "SystemTime", true⟩ {} v
  let seconds ← required "secs_since_epoch" p.seconds
  let nanoseconds ← required "nanos_since_epoch" p.nanoseconds
  let seconds := seconds + nanoseconds / 1000000000
  if UInt64.size ≤ seconds then throw .offsetOverflow
  if UInt64.size / 2 ≤ seconds then throw .timeOverflow
  return ⟨seconds, nanoseconds % 1000000000⟩

end Timestamp

namespace Stamp

def toJson? (s : Stamp) : Option Json :=
  s.modified.toJson?.map fun modified =>
    .object [("size", .ofUInt64 s.size), ("modified", modified), ("sha256", .string s.sha256)]

structure Parts where
  size : Option Nat := none
  modified : Option Timestamp := none
  sha256 : Option String := none

def fields : List (Json.Field Parts) :=
  [.ofDecoder "size" (·.size) (fun s v => { s with size := some v }) (Json.decodeUnsigned 64),
    .ofDecoder "modified" (·.modified) (fun s v => { s with modified := some v }) Timestamp.ofJson,
    .ofDecoder "sha256" (·.sha256) (fun s v => { s with sha256 := some v }) Json.decodeString]

def ofJson : Decoder Stamp := fun v => do
  let p ← decodeRecord ⟨"FileStamp", fields, .recordOfLength "FileStamp" 3, false⟩ {} v
  return ⟨.ofNat (← required "size" p.size), ← required "modified" p.modified,
    ← required "sha256" p.sha256⟩

end Stamp

namespace Cache

/-- The members of a cache file; none when an entry has a time that cannot be written. -/
def toJson? (c : Cache) : Option Json := do
  let files ← c.files.values.mapM fun e =>
    e.stamp.toJson?.map fun stamp => (e.path.spelling, stamp)
  return .object [("version", .ofUInt32 version), ("fingerprint", .string c.fingerprint),
    ("updated_at", .ofOption (c.updatedAt.map (·.text "Z"))), ("files", .object files)]

/-- What a cache file holds, whatever its version. -/
structure Contents where
  version : Nat
  fingerprint : String
  updatedAt : Option Time.Instant
  files : CacheFiles

namespace Contents

structure Parts where
  version : Option Nat := none
  fingerprint : Option String := none
  updatedAt : Option (Option Time.Instant) := none
  files : Option CacheFiles := none

def decodeFiles : Decoder CacheFiles
  | .object members =>
    members.foldlM (fun files (name, v) => do return files.put ⟨name⟩ (← Stamp.ofJson v)) ∅
  | v => .error (.wrongType v.found .map)

def fields : List (Json.Field Parts) :=
  [.ofDecoder "version" (·.version) (fun s v => { s with version := some v })
      (Json.decodeUnsigned 32),
    .ofDecoder "fingerprint" (·.fingerprint) (fun s v => { s with fingerprint := some v })
      Json.decodeString,
    .ofDecoder "updated_at" (·.updatedAt) (fun s v => { s with updatedAt := some v })
      (Json.decodeOption Json.decodeTime),
    .ofDecoder "files" (·.files) (fun s v => { s with files := some v }) decodeFiles]

/-- The time of the last save may be missing. -/
def ofJson : Decoder Contents := fun v => do
  let p ← decodeRecord ⟨"Snapshot", fields, .recordOfLength "Snapshot" 4, false⟩ {} v
  return ⟨← required "version" p.version, ← required "fingerprint" p.fingerprint,
    p.updatedAt.getD none, ← required "files" p.files⟩

end Contents

/-- Reads a cache file's text; one that is no JSON value has no more precise complaint. -/
def parse (path : Path) (text : String) : Except CacheError Cache := do
  let some v := Json.parse? text | throw .malformed
  match Contents.ofJson v with
  | .error m => throw (if v.depth ≤ Json.maxDepth then .mismatch path m else .malformed)
  | .ok s =>
    if s.version ≠ version.toNat then throw (.unsupportedVersion (.ofNat s.version) path)
    return ⟨path, s.fingerprint, s.updatedAt, s.files, false⟩

/-- Opens the record kept at a path, an empty one if there is nothing. -/
def openAt (tree : FileTree) (path : Path) : Except Error Cache :=
  if tree.hasPath path then
    match tree.readText path with
    | .ok text => (parse path text).mapError .cache
    | .error cause => .error (.cache (.unreadable path cause))
  else .ok { path, isDirty := true }

/-- The tree with the directory that the record is kept in. -/
def withDirectory (c : Cache) (tree : FileTree) : Except CacheError FileTree :=
  match c.path.parent? with
  | some above => (tree.makeDirectories above).mapError .directoryNotMade
  | none => .ok tree

/--
Writes the record back if there is something to save. The time of the save is noted before the text
is made, also when that or writing it fails.
-/
def save (c : Cache) (tree : FileTree) (now : Time.Instant) :
    Except Error Unit × Cache × FileTree :=
  if !c.isDirty then (.ok (), c, tree)
  else
    match c.withDirectory tree with
    | .error e => (.error (.cache e), c, tree)
    | .ok tree =>
      let c := { c with updatedAt := some now }
      match c.toJson? with
      | none => (.error (.cache .timeBeforeEpoch), c, tree)
      | some v =>
        match tree.write c.path v.pretty.toUTF8 with
        | .error cause => (.error (.cache (.unwritable cause)), c, tree)
        | .ok tree => (.ok (), { c with isDirty := false }, tree)

end Cache

end ExplicitApi
