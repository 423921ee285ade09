import ExplicitApi.Cache.Stamp
import ExplicitApi.FileTree.Change
import ExplicitApi.Time.Instant

/-! A record of files whose content is known to need no change under one configuration. -/
namespace ExplicitApi

structure CacheEntry where
  path : Path
  stamp : Stamp
  deriving DecidableEq, Repr

/-- Entries under the components of their paths. -/
abbrev CacheFiles := OrderedMap (List Path.Component) CacheEntry

/-- Binds a path to a stamp; an earlier spelling of it is kept. -/
def CacheFiles.put (files : CacheFiles) (path : Path) (stamp : Stamp) : CacheFiles :=
  let spelled := ((files.find? path.components).map (·.path)).getD path
  files.insert path.components ⟨spelled, stamp⟩

structure Cache where
  /-- The file that the record is kept in. -/
  path : Path
  /-- Names the configuration that the entries belong to. -/
  fingerprint : String := ""
  /-- When the record was saved last. -/
  updatedAt : Option Time.Instant := none
  files : CacheFiles := ∅
  /-- Whether there is something to save. -/
  isDirty : Bool

namespace Cache

/-- Where the record is kept unless another place is named. -/
def defaultPath : Path := ⟨".visibility/fixer_cache.json"⟩

def size (c : Cache) : Nat := c.files.size

def isEmpty (c : Cache) : Bool := c.files.isEmpty

def entry? (c : Cache) (path : Path) : Option CacheEntry := c.files.find? path.components

/-- Ties the record to a configuration, without the entries made under another one. -/
def bind (c : Cache) (fingerprint : String) : Cache :=
  if c.fingerprint = fingerprint then c else { c with files := ∅, fingerprint, isDirty := true }

/-- Whether a path is recorded and has not changed since. -/
def knows (c : Cache) (tree : FileTree) (path : Path) : Except Error Bool :=
  match c.entry? path with
  | some e => e.stamp.isCarried tree path
  | none => .ok false

def insert (c : Cache) (path : Path) (stamp : Stamp) : Cache :=
  { c with files := c.files.put path stamp, isDirty := true }

/-- Records the present content of a path as one that needs no change. -/
def learn (c : Cache) (tree : FileTree) (path : Path) : Except Error Cache := do
  return c.insert path (← Stamp.read tree path)

/-- Drops a path, so that the next run visits it. -/
def drop (c : Cache) (path : Path) : Cache :=
  if c.files.contains path.components then
    { c with files := c.files.erase path.components, isDirty := true }
  else c

/-- Drops the entries of files that are gone. -/
def withoutMissing (c : Cache) (tree : FileTree) : Cache :=
  let files := c.files.filter fun _ e => tree.isFile e.path
  { c with files, isDirty := c.isDirty || files.size != c.files.size }

/-- Deletes the file of a record, and tells whether there was one. -/
def delete (tree : FileTree) (path : Path) : Except Error (Bool × FileTree) :=
  if tree.hasPath path then
    match tree.removeFile path with
    | .ok tree => .ok (true, tree)
    | .error cause => .error (.cache (.notRemoved cause))
  else .ok (false, tree)

end Cache

end ExplicitApi
