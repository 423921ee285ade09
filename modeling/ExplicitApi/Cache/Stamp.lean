import ExplicitApi.Digest
import ExplicitApi.Error
import ExplicitApi.FileTree.Resolve

/-! The identity of a file's content: its size, its time and its hash. -/
namespace ExplicitApi

structure Stamp where
  size : UInt64
  modified : Timestamp
  sha256 : String
  deriving DecidableEq, Repr

namespace Stamp

def hashOf (content : ByteArray) : String := Digest.bytesText (Digest.Sha256.hash content.toList)

def status (tree : FileTree) (path : Path) : Except Error FileTree.Status :=
  (tree.status path).mapError fun cause => .cache (.noStatus path cause)

def hashAt (tree : FileTree) (path : Path) : Except Error String :=
  match tree.read path with
  | .ok content => .ok (hashOf content)
  | .error cause => .error (.cache (.noHash path cause))

/-- The stamp of the file that a path leads to; a directory has none. -/
def read (tree : FileTree) (path : Path) : Except Error Stamp := do
  match ← status tree path with
  | .file size modified => return ⟨.ofNat size, modified, ← hashAt tree path⟩
  | .directory => throw (.cache (.noHash path .isDirectory))

/-- Whether a path still carries a stamp; the content counts only when size and time agree. -/
def isCarried (stamp : Stamp) (tree : FileTree) (path : Path) : Except Error Bool := do
  match ← status tree path with
  | .file size modified =>
    if .ofNat size ≠ stamp.size ∨ modified ≠ stamp.modified then return false
    return (← hashAt tree path) == stamp.sha256
  | .directory => return false

end Stamp

end ExplicitApi
