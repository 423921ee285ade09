import ExplicitApi.OrderedMap
import ExplicitApi.Path

/-!
File trees as values. What is in a tree is addressed by the names that lead to it from the root;
everything in it lies in a directory.
-/
namespace ExplicitApi

/-- Why an operation on a file tree fails, in the words of the operating system. -/
inductive IoError where
  | notFound
  | alreadyExists
  | notDirectory
  | isDirectory
  | permissionDenied
  | tooManyLinks
  | invalidUtf8
  deriving DecidableEq, Repr

namespace IoError

def message : IoError → String
  | notFound => "No such file or directory (os error 2)"
  | alreadyExists => "File exists (os error 17)"
  | notDirectory => "Not a directory (os error 20)"
  | isDirectory => "Is a directory (os error 21)"
  | permissionDenied => "Permission denied (os error 13)"
  | tooManyLinks => "Too many levels of symbolic links (os error 40)"
  | invalidUtf8 => "stream did not contain valid UTF-8"

end IoError

/-- A time before or after 1970, the nanoseconds counted from the start of the second. -/
structure Timestamp where
  seconds : Int
  nanoseconds : Nat
  deriving DecidableEq, Repr, Inhabited

/-- The names from the root of a tree to a place in it. -/
abbrev Location := List (List Char)

inductive Entry where
  | file (content : ByteArray) (modified : Timestamp)
  | directory
  | link (target : String)

instance : DecidableEq Entry
  | .file a m, .file b n => decidable_of_iff (a.data = b.data ∧ m = n) (by simp [ByteArray.ext_iff])
  | .directory, .directory => isTrue rfl
  | .link a, .link b => decidable_of_iff (a = b) (by simp)
  | .file .., .directory | .file .., .link _ | .directory, .file .. => isFalse nofun
  | .directory, .link _ | .link _, .file .. | .link _, .directory => isFalse nofun

structure FileTree where
  entries : OrderedMap Location Entry
  nested : ∀ loc entry, (loc, entry) ∈ entries.entries →
    loc ≠ [] ∧ (loc.dropLast ≠ [] → (loc.dropLast, .directory) ∈ entries.entries)
  named : ∀ loc entry, (loc, entry) ∈ entries.entries → loc.all Path.isName = true
  /-- The directory that relative paths start from. -/
  home : Location
  /-- The time that the content written last was given. -/
  clock : Timestamp
  /-- Where files may be given content. -/
  writable : Location → Bool

namespace FileTree

def empty : FileTree where
  entries := ∅
  nested := by intro _ _ h; cases h
  named := by intro _ _ h; cases h
  home := []
  clock := ⟨0, 0⟩
  writable := fun _ => true

/-- What is at a location; the root is always a directory. -/
def lookup (t : FileTree) (loc : Location) : Option Entry :=
  match loc with
  | [] => some .directory
  | loc => t.entries.find? loc

def isDirectoryAt (t : FileTree) (loc : Location) : Bool := t.lookup loc == some .directory

theorem mem_of_lookup {t : FileTree} {loc : Location} {entry : Entry} (ne : loc ≠ [])
    (h : t.lookup loc = some entry) : (loc, entry) ∈ t.entries.entries := by
  cases loc with
  | nil => exact absurd rfl ne
  | cons a l => exact OrderedMap.find?_eq_some_iff.1 h

/-- Whether an entry may be put at a location: inside a directory, and not in place of one. -/
def mayPut (t : FileTree) (loc : Location) : Bool :=
  loc ≠ [] && loc.all Path.isName && t.isDirectoryAt loc.dropLast && !t.isDirectoryAt loc

theorem nested_insert {t : FileTree} {loc : Location} {entry : Entry}
    (may : t.mayPut loc = true) (loc' : Location) (entry' : Entry)
    (h : (loc', entry') ∈ (t.entries.insert loc entry).entries) :
    loc' ≠ [] ∧ (loc'.dropLast ≠ [] →
      (loc'.dropLast, .directory) ∈ (t.entries.insert loc entry).entries) := by
  simp only [mayPut, isDirectoryAt, Bool.and_eq_true, decide_eq_true_eq, beq_iff_eq,
    Bool.not_eq_true', beq_eq_false_iff_ne] at may
  obtain ⟨⟨⟨ne, _⟩, above⟩, notDirectory⟩ := may
  have keep : ∀ l, l ≠ [] → (l, Entry.directory) ∈ t.entries.entries →
      (l, Entry.directory) ∈ (t.entries.insert loc entry).entries := by
    intro l hl mem
    refine OrderedMap.mem_insert_iff.2 (.inr ⟨?_, mem⟩)
    rintro rfl
    refine notDirectory ?_
    cases l with
    | nil => exact absurd rfl hl
    | cons a l => exact OrderedMap.find?_eq_some_iff.2 mem
  rcases OrderedMap.mem_insert_iff.1 h with ⟨rfl, rfl⟩ | ⟨_, mem⟩
  · exact ⟨ne, fun nonempty => keep _ nonempty (mem_of_lookup nonempty above)⟩
  · have old := t.nested _ _ mem
    exact ⟨old.1, fun nonempty => keep _ nonempty (old.2 nonempty)⟩

theorem named_insert {t : FileTree} {loc : Location} {entry : Entry}
    (may : t.mayPut loc = true) (loc' : Location) (entry' : Entry)
    (h : (loc', entry') ∈ (t.entries.insert loc entry).entries) :
    loc'.all Path.isName = true := by
  rcases OrderedMap.mem_insert_iff.1 h with ⟨rfl, rfl⟩ | ⟨_, mem⟩
  · simp only [mayPut, Bool.and_eq_true] at may
    exact may.1.1.2
  · exact t.named _ _ mem

/-- Puts an entry at a location where that is allowed, and changes nothing elsewhere. -/
def put (t : FileTree) (loc : Location) (entry : Entry) : FileTree :=
  if h : t.mayPut loc = true then
    { t with
      entries := t.entries.insert loc entry
      nested := nested_insert h
      named := named_insert h }
  else t

theorem nested_filter {t : FileTree} {top : Location} (loc : Location) (entry : Entry)
    (h : (loc, entry) ∈ (t.entries.filter fun l _ => !top.isPrefixOf l).entries) :
    loc ≠ [] ∧ (loc.dropLast ≠ [] →
      (loc.dropLast, .directory) ∈ (t.entries.filter fun l _ => !top.isPrefixOf l).entries) := by
  simp only [OrderedMap.filter, List.mem_filter, Bool.not_eq_true'] at h ⊢
  have old := t.nested _ _ h.1
  refine ⟨old.1, fun nonempty => ⟨old.2 nonempty, ?_⟩⟩
  rw [Bool.eq_false_iff]
  intro inside
  have within := (List.isPrefixOf_iff_prefix.1 inside).trans (List.dropLast_prefix loc)
  rw [List.isPrefixOf_iff_prefix.2 within] at h
  exact Bool.noConfusion h.2

/-- Removes what is at a location, with everything inside. -/
def removeAt (t : FileTree) (top : Location) : FileTree :=
  { t with
    entries := t.entries.filter fun l _ => !top.isPrefixOf l
    nested := nested_filter
    named := fun loc entry h => t.named loc entry (List.mem_filter.1 h).1 }

/-- The entries inside the directory at a location, each directory before its contents. -/
def inside (t : FileTree) (top : Location) : List (Location × Entry) :=
  t.entries.entries.filter fun e => top.isPrefixOf e.1 && e.1 != top

/-- A time later than every other one that the clock gave. -/
def tick (t : FileTree) : FileTree := { t with clock := ⟨t.clock.seconds + 1, t.clock.nanoseconds⟩ }

end FileTree

end ExplicitApi
