import ExplicitApi.Proofs.FileTree.Walk
import ExplicitApi.Selection.Basic

/-!
Ignore files are read once in a walk. Main statement: selecting with the table of those read before
decides what selecting with each of them read afresh decides.
-/
namespace ExplicitApi

namespace FileTree

variable {t : FileTree} {p q : Path} {name : String}

theorem read_join_congr (h : p.components = q.components) (name : String) {content : ByteArray} :
    t.read (p.join name) = .ok content ↔ t.read (q.join name) = .ok content := by
  have hread : ∀ {p q : Path}, p.components = q.components →
      t.read (p.join name) = .ok content → t.read (q.join name) = .ok content := by
    intro p q h hp
    obtain ⟨modified, hentry⟩ := read_eq_ok_iff.1 hp
    obtain ⟨loc, hloc, hlookup⟩ := entry_eq_ok_iff.1 hentry
    have hloc' := locate_join_congr h hloc
    exact read_eq_ok_iff.2 ⟨modified, entry_eq_ok_iff.2 ⟨loc, hloc', hlookup⟩⟩
  exact ⟨hread h, hread h.symm⟩

def IsIllegible (t : FileTree) (path : Path) : Prop :=
  ∃ content, t.read path = .ok content ∧ String.fromUTF8? content = none

/-- The patterns in the file that a path leads to; none if there is no file or it is no text. -/
def patternsAt (t : FileTree) (path : Path) : List PathPattern :=
  match t.readText path with
  | .ok content => PathPattern.ofLines content
  | .error _ => []

theorem isFile_iff : t.isFile p = true ↔ ∃ content, t.read p = .ok content := by
  unfold isFile
  constructor
  · intro h
    split at h
    · next content modified hentry => exact ⟨content, read_eq_ok_iff.2 ⟨modified, hentry⟩⟩
    · cases h
  · rintro ⟨content, hread⟩
    obtain ⟨modified, hentry⟩ := read_eq_ok_iff.1 hread
    rw [hentry]

theorem isIllegible_join_congr (h : p.components = q.components) (name : String) :
    t.IsIllegible (p.join name) ↔ t.IsIllegible (q.join name) :=
  exists_congr fun _ => and_congr_left fun _ => read_join_congr h name

theorem readText_of_read {content : ByteArray} (h : t.read p = .ok content) :
    t.readText p = match String.fromUTF8? content with
      | some text => .ok text
      | none => .error .invalidUtf8 := by
  rw [readText, h]
  rfl

theorem patternsAt_join_congr (h : p.components = q.components) (name : String) :
    t.patternsAt (p.join name) = t.patternsAt (q.join name) := by
  have hok : ∀ text, t.readText (p.join name) = .ok text ↔ t.readText (q.join name) = .ok text := by
    intro text
    rw [readText_eq_ok_iff, readText_eq_ok_iff]
    exact exists_congr fun content => and_congr_left fun _ => read_join_congr h name
  unfold patternsAt
  cases hp : t.readText (p.join name) with
  | ok text => rw [(hok text).1 hp]
  | error e =>
    cases hq : t.readText (q.join name) with
    | ok text => cases hp.symm.trans ((hok text).2 hq)
    | error e' => rfl

end FileTree

namespace Selection

variable {t : FileTree} {name : String} {α β : Type}

theorem ignorePatterns_of_isIllegible {directory : Path}
    (h : t.IsIllegible (directory.join name)) :
    ∃ e, ignorePatterns t name directory = .error e := by
  obtain ⟨content, hread, htext⟩ := h
  have hfile := FileTree.isFile_iff.2 ⟨content, hread⟩
  have hreadText := FileTree.readText_of_read hread
  rw [htext] at hreadText
  simp only [ignorePatterns, hfile, if_true, hreadText]
  exact ⟨_, rfl⟩

theorem ignorePatterns_of_not_isIllegible {directory : Path}
    (h : ¬t.IsIllegible (directory.join name)) :
    ignorePatterns t name directory = .ok (t.patternsAt (directory.join name)) := by
  unfold ignorePatterns FileTree.patternsAt
  by_cases hfile : t.isFile (directory.join name) = true
  · obtain ⟨content, hread⟩ := FileTree.isFile_iff.1 hfile
    have hreadText := FileTree.readText_of_read hread
    cases htext : String.fromUTF8? content with
    | none => exact absurd ⟨content, hread, htext⟩ h
    | some text =>
      rw [htext] at hreadText
      simp [hfile, hreadText]
  · cases hreadText : t.readText (directory.join name) with
    | error e => simp [hfile]
    | ok text =>
      obtain ⟨content, hread, -⟩ := FileTree.readText_eq_ok_iff.1 hreadText
      exact absurd (FileTree.isFile_iff.2 ⟨content, hread⟩) hfile

theorem ignorePatterns_eq_ok_iff {directory : Path} {patterns : List PathPattern} :
    ignorePatterns t name directory = .ok patterns ↔
      ¬t.IsIllegible (directory.join name) ∧ t.patternsAt (directory.join name) = patterns := by
  by_cases h : t.IsIllegible (directory.join name)
  · obtain ⟨e, he⟩ := ignorePatterns_of_isIllegible h
    simp [he, h]
  · rw [ignorePatterns_of_not_isIllegible h]
    simp [h]

theorem ignorePatterns_congr {p q : Path} (hpq : p.components = q.components)
    {patterns : List PathPattern} (h : ignorePatterns t name p = .ok patterns) :
    ignorePatterns t name q = .ok patterns := by
  rw [ignorePatterns_eq_ok_iff] at h ⊢
  rwa [← FileTree.isIllegible_join_congr hpq, ← FileTree.patternsAt_join_congr hpq]

/-- Whether a table has for each directory what its ignore file says, however it is spelled. -/
def IgnoreTable.Tells (t : FileTree) (name : String) (table : IgnoreTable) : Prop :=
  ∀ directory patterns, table.find? directory.components = some patterns →
    ignorePatterns t name directory = .ok patterns

/-- Whether what is decided with a table at hand is what is decided without one. -/
def Follows (t : FileTree) (name : String) (x : Consulting α) (y : Except Error α) : Prop :=
  ∀ table, IgnoreTable.Tells t name table →
    match y with
    | .ok a => ∃ table', x table = .ok (a, table') ∧ IgnoreTable.Tells t name table'
    | .error e => x table = .error e

theorem follows_pure (a : α) : Follows t name (pure a) (.ok a) :=
  fun table htable => ⟨table, rfl, htable⟩

theorem Follows.bind {x : Consulting α} {y : Except Error α} {f : α → Consulting β}
    {g : α → Except Error β} (h : Follows t name x y) (hf : ∀ a, Follows t name (f a) (g a)) :
    Follows t name (x >>= f) (y >>= g) := by
  intro table htable
  have hrun : (x >>= f) table = x table >>= fun result => f result.1 result.2 := rfl
  have hx := h table htable
  cases y with
  | error e =>
    change (x >>= f) table = .error e
    rw [hrun, hx]
    rfl
  | ok a =>
    obtain ⟨table', hx, htable'⟩ := hx
    rw [hx] at hrun
    have hrest := hf a table' htable'
    rw [hrun]
    exact hrest

theorem patternsIn_of_find {directory : Path} {table : IgnoreTable} {patterns : List PathPattern}
    (h : table.find? directory.components = some patterns) :
    patternsIn t name directory table = .ok (patterns, table) := by
  simp only [patternsIn, bind, StateT.bind, get, getThe, MonadStateOf.get, StateT.get, pure,
    Except.pure, Except.bind]
  rw [h]
  rfl

theorem patternsIn_of_not_find (t : FileTree) (name : String) {directory : Path}
    {table : IgnoreTable} (h : table.find? directory.components = none) :
    patternsIn t name directory table = ignorePatterns t name directory >>= fun patterns =>
      .ok (patterns, table.insert directory.components patterns) := by
  simp only [patternsIn, bind, StateT.bind, get, getThe, MonadStateOf.get, StateT.get, pure,
    Except.pure, Except.bind]
  rw [h]
  cases ignorePatterns t name directory <;> rfl

theorem follows_patternsIn (t : FileTree) (name : String) (directory : Path) :
    Follows t name (patternsIn t name directory) (ignorePatterns t name directory) := by
  intro table htable
  cases hfind : table.find? directory.components with
  | some patterns =>
    rw [htable directory patterns hfind]
    exact ⟨table, patternsIn_of_find hfind, htable⟩
  | none =>
    have hrun := patternsIn_of_not_find t name hfind
    cases hread : ignorePatterns t name directory with
    | error e =>
      rw [hread] at hrun
      exact hrun
    | ok patterns =>
      rw [hread] at hrun
      refine ⟨_, hrun, fun directory' patterns' hfind' => ?_⟩
      rw [OrderedMap.find?_insert] at hfind'
      split at hfind'
      · next hsame =>
        cases hfind'
        exact ignorePatterns_congr hsame.symm hread
      · exact htable directory' patterns' hfind'

theorem follows_foldlM {f : α → β → Consulting α} {g : α → β → Except Error α}
    (h : ∀ a b, Follows t name (f a b) (g a b)) (l : List β) (a : α) :
    Follows t name (l.foldlM f a) (l.foldlM g a) := by
  induction l generalizing a with
  | nil => exact follows_pure a
  | cons b l ih =>
    rw [List.foldlM_cons, List.foldlM_cons]
    exact (h a b).bind ih

theorem follows_filterAuxM {f : α → Consulting Bool} {g : α → Except Error Bool}
    (h : ∀ a, Follows t name (f a) (g a)) (l kept : List α) :
    Follows t name (l.filterAuxM f kept) (l.filterAuxM g kept) := by
  induction l generalizing kept with
  | nil => exact follows_pure kept
  | cons a l ih =>
    exact (h a).bind fun keep => ih _

theorem follows_filterM {f : α → Consulting Bool} {g : α → Except Error Bool}
    (h : ∀ a, Follows t name (f a) (g a)) (l : List α) :
    Follows t name (l.filterM f) (l.filterM g) :=
  (follows_filterAuxM h l []).bind fun kept => follows_pure kept.reverse

variable {s : Selection} {root : Option Path} {path : Path}

/-- What `isIgnored` decides, with each ignore file read afresh. -/
def isIgnoredAfresh (t : FileTree) (name : String) (root : Option Path) (path : Path) :
    Except Error Bool :=
  (ignoreDirectories root path).foldlM
    (fun ignored directory => do
      return isIgnoredAfter path ignored directory (← ignorePatterns t name directory))
    false

/-- What `selects` decides, with each ignore file read afresh. -/
def selectsAfresh (s : Selection) (t : FileTree) (root : Option Path) (path : Path) :
    Except Error Bool := do
  if s.selectsByName path ((root.bind path.relativeTo?).getD path) then
    match s.ignoreFile with
    | some name => return !(← isIgnoredAfresh t name root path)
    | none => return true
  else return false

theorem follows_isIgnored (t : FileTree) (name : String) (root : Option Path) (path : Path) :
    Follows t name (isIgnored t name root path) (isIgnoredAfresh t name root path) :=
  follows_foldlM (fun _ directory =>
    (follows_patternsIn t name directory).bind fun _ => follows_pure _) _ _

theorem follows_selects (hname : ∀ name', s.ignoreFile = some name' → name' = name) (t : FileTree)
    (root : Option Path) (path : Path) :
    Follows t name (s.selects t root path) (s.selectsAfresh t root path) := by
  unfold selects selectsAfresh
  dsimp only
  split
  · cases hignore : s.ignoreFile with
    | none => exact follows_pure true
    | some name' =>
      obtain rfl := hname name' hignore
      exact (follows_isIgnored t name' root path).bind fun ignored => follows_pure !ignored
  · exact follows_pure false

theorem tells_empty (t : FileTree) (name : String) : IgnoreTable.Tells t name ∅ := by
  intro directory patterns h
  cases h

/-- Starting without a table, one decides what is decided afresh. -/
theorem Follows.run'_empty {x : Consulting α} {y : Except Error α} (h : Follows t name x y) :
    x.run' ∅ = y := by
  have hx := h ∅ (tells_empty t name)
  cases y with
  | error e =>
    change Prod.fst <$> x ∅ = .error e
    rw [hx]
    rfl
  | ok a =>
    obtain ⟨table, hx, -⟩ := hx
    change Prod.fst <$> x ∅ = .ok a
    rw [hx]
    rfl

theorem exists_name (s : Selection) : ∃ name, ∀ name', s.ignoreFile = some name' → name' = name :=
  ⟨s.ignoreFile.getD "", fun name' h => by rw [h, Option.getD_some]⟩

/-- The files under a root are those that are selected with each ignore file read afresh. -/
theorem filesUnder_eq (s : Selection) (t : FileTree) (root : Path) :
    s.filesUnder t root = do
      let found ← ((t.walk root).filter t.isFile).filterM (s.selectsAfresh t (some root))
      return (PathSet.addAll ∅ found).toList := by
  obtain ⟨name, hname⟩ := s.exists_name
  have hfollows := follows_filterM (follows_selects hname t (some root))
    ((t.walk root).filter t.isFile)
  rw [filesUnder, hfollows.run'_empty]

end Selection

end ExplicitApi
