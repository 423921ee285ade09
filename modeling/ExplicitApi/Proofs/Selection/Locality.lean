import ExplicitApi.Proofs.FileTree.Differing
import ExplicitApi.Proofs.Selection.UnderRoot
import ExplicitApi.Proofs.Sorting

/-!
How far the say of an ignore file reaches. Main statement: in trees without links, what is selected
depends on the ignore file of a directory only in and below that directory, unless the name of ignore
files leads out of their directories.
-/
namespace ExplicitApi

namespace FileTree

variable {t t' : FileTree} {spot top d : Location} {root path : Path} {names : List (List Char)}

/-- A path that finds nothing where trees differ has the same patterns in both. -/
theorem DifferAt.patternsAt (h : t.DifferAt t' spot) (hpath : ¬t.Finds path spot)
    (hpath' : ¬t'.Finds path spot) : t'.patternsAt path = t.patternsAt path := by
  unfold FileTree.patternsAt
  cases hread : t.readText path with
  | ok text => rw [h.readText hpath hread]
  | error e =>
    cases hread' : t'.readText path with
    | ok text => cases hread.symm.trans (h.symm.readText hpath' hread')
    | error e' => rfl

/-- Without links, a walk finds each file at the place of its names. -/
theorem LinkFree.locate_descend (h : t.LinkFree) (htop : t.locate root = .ok top)
    (hfound : t.lookup (top ++ names) ≠ none) :
    t.locate (root.descend names) = .ok (top ++ names) := by
  by_cases hne : names = []
  · rw [hne, List.append_nil]
    exact htop
  · obtain ⟨e, hlookup⟩ := Option.ne_none_iff_exists'.1 hfound
    refine locate_descend_of_lookup htop hlookup ?_ hne
    rintro target rfl
    exact h _ target hlookup

/-- On the way to something there are directories. -/
theorem lookup_take (hfound : t.lookup (top ++ names) ≠ none) {depth : Nat}
    (hdepth : depth < names.length) : t.lookup (top ++ names.take depth) = some .directory := by
  obtain ⟨e, hlookup⟩ := Option.ne_none_iff_exists'.1 hfound
  have hrest : names.drop depth ≠ [] := by
    rw [Ne, List.drop_eq_nil_iff]
    omega
  rw [← List.take_append_drop depth names, ← List.append_assoc] at hlookup
  exact lookup_of_lookup_append hrest hlookup

def HoldsTexts (t : FileTree) : Prop :=
  ∀ loc e, t.lookup loc = some e →
    e = .directory ∨ ∃ (text : String) (modified : Timestamp), e = .file text.toUTF8 modified

theorem holdsTexts_empty : empty.HoldsTexts := by
  intro loc e h
  cases loc with
  | nil => exact .inl (Option.some.inj h).symm
  | cons first rest => cases h

theorem HoldsTexts.put (h : t.HoldsTexts) (spot : Location) {e : Entry}
    (he : e = .directory ∨ ∃ (text : String) (modified : Timestamp), e = .file text.toUTF8 modified) :
    (t.put spot e).HoldsTexts := by
  intro loc found hlookup
  rcases lookup_put_cases t spot e loc with heq | heq
  · exact h loc found (heq.symm.trans hlookup)
  · cases heq.symm.trans hlookup
    exact he

theorem HoldsTexts.linkFree (h : t.HoldsTexts) : t.LinkFree := by
  intro loc target hlink
  rcases h loc _ hlink with heq | ⟨text, modified, heq⟩ <;> cases heq

theorem HoldsTexts.not_isIllegible (h : t.HoldsTexts) (path : Path) : ¬t.IsIllegible path := by
  rintro ⟨content, hread, hnone⟩
  obtain ⟨modified, hentry⟩ := read_eq_ok_iff.1 hread
  obtain ⟨loc, -, hlookup⟩ := entry_eq_ok_iff.1 hentry
  rcases h loc _ hlookup with heq | ⟨text, _, heq⟩
  · cases heq
  · cases heq
    cases hnone.symm.trans (fromUTF8?_toUTF8 text)

end FileTree

namespace Selection

variable {s : Selection} {t t' : FileTree} {d top : Location} {root path : Path}
  {names below : List (List Char)} {name : String} {files files' : List Path}

/-- A file asked for by itself is under the ignore file of its parent alone. -/
theorem ignoreDirectories_none (path : Path) :
    ignoreDirectories none path = path.parent?.toList := by
  have htake : ∀ fuel, (Path.properAncestors.go (fuel + 1) path).take 1 = path.parent?.toList := by
    intro fuel
    rw [Path.properAncestors.go]
    cases path.parent? <;> rfl
  change path.properAncestors.take 1 = _
  rw [Path.properAncestors]
  cases hlength : path.components.length with
  | zero =>
    cases hparent : path.parent? with
    | none => rfl
    | some q =>
      obtain ⟨last, hcomponents⟩ := Path.components_of_parent? hparent
      simp [hcomponents] at hlength
  | succ n => exact htake n

/--
Whether an ignore file can bear on a place: its own or, if the walk comes to its directory, one
there or below.
-/
def Governs (top d : Location) (names : List (List Char)) (loc : Location) : Prop :=
  loc = d ++ names ∨ top <+: d ∧ d <+: loc

/-- A walk only comes to such a place if the ignore file lies in a directory that it comes to. -/
theorem Governs.isPrefix (h : Governs top d names (top ++ below)) (hbelow : below ≠ [])
    (hnames : names ≠ []) : top <+: (d ++ names).dropLast := by
  rcases h with heq | ⟨habove, -⟩
  · rw [← heq, List.dropLast_append_of_ne_nil hbelow]
    exact List.prefix_append _ _
  · rw [List.dropLast_append_of_ne_nil hnames]
    exact habove.trans (List.prefix_append _ _)

section TwoTrees

variable (hignore : s.ignoreFile = some name) (hname : Path.LeadsDown name names)
  (hdiffer : t.DifferAt t' (d ++ names)) (hlinks : t.LinkFree)

include hname hdiffer hlinks

/-- Only from the directory whose ignore files differ do paths go on to other patterns. -/
theorem patternsAt_join {base : Path} (hbase : ¬t.StartsAt base d) :
    t'.patternsAt (base.join name) = t.patternsAt (base.join name) := by
  have hlinks' := hdiffer.linkFree hlinks
  refine hdiffer.patternsAt (fun hfinds => ?_) fun hfinds => ?_
  · exact hbase (hlinks.startsAt_of_finds hname hfinds)
  · exact hbase (hdiffer.symm.startsAt (hlinks'.startsAt_of_finds hname hfinds))

/-- On a way that does not pass the directory, the ignore files say the same in both trees. -/
theorem ignoreLines_of_apart (htop : t.locate root = .ok top)
    (hfound : t.lookup (top ++ below) ≠ none)
    (hapart : ∀ depth < below.length, top ++ below.take depth ≠ d) :
    ignoreLines t' name root below = ignoreLines t name root below := by
  have hlines : ∀ depth ∈ List.range below.length,
      linesAt t' name root below depth = linesAt t name root below depth := by
    intro depth hdepth
    have hdepth := List.mem_range.1 hdepth
    have hdirectory := FileTree.lookup_take hfound hdepth
    have hstation : ¬t.StartsAt (root.descend (below.take depth)) d := by
      intro hstarts
      have hlocate := hlinks.locate_descend htop (hdirectory ▸ Option.some_ne_none _)
      exact hapart depth hdepth (hstarts.eq_of_locate hlocate).symm
    rw [linesAt, linesAt, patternsAt_join hname hdiffer hlinks hstation]
  rw [ignoreLines, ignoreLines, List.flatMap_def, List.flatMap_def, List.map_congr_left hlines]

include hignore in
/-- What a walk selects is selected in the other tree, unless the ignore file bears on it. -/
theorem mem_filesUnder_of_apart (htop : t.locate root = .ok top)
    (hdirectory : t.lookup top = some .directory) (h : s.filesUnder t root = .ok files)
    (h' : s.filesUnder t' root = .ok files') (hpath : path ∈ files) :
    path ∈ files' ∨ ∃ below, below ≠ [] ∧ t.locate path = .ok (top ++ below) ∧
      Governs top d names (top ++ below) := by
  obtain ⟨below, hreaches, rfl, hfile, hadmits, hspares⟩ :=
    (mem_filesUnder_iff htop hdirectory h).1 hpath
  have hfound := (FileTree.reaches_iff (hdirectory ▸ Option.some_ne_none _)).1 hreaches
  have hlocate := hlinks.locate_descend htop hfound
  have hne := ne_nil_of_isFile_descend htop hdirectory hfile
  refine or_iff_not_imp_right.2 fun hgoverned => ?_
  have hspot : top ++ below ≠ d ++ names := fun heq => hgoverned ⟨below, hne, hlocate, .inl heq⟩
  have hapart : ∀ depth < below.length, top ++ below.take depth ≠ d := by
    rintro depth - rfl
    refine hgoverned ⟨below, hne, hlocate, .inr ⟨List.prefix_append _ _, ?_⟩⟩
    exact (List.prefix_append_right_inj top).2 (List.take_prefix depth below)
  have hunfound : ¬t.Finds (root.descend below) (d ++ names) :=
    fun hfinds => hspot (Except.ok.inj (hlocate.symm.trans hfinds.1))
  have htop' := hdiffer.locate_directory htop hdirectory
  have hdirectory' := hdiffer.lookup_directory hdirectory
  refine (mem_filesUnder_iff htop' hdirectory' h').2 ⟨below, ?_, rfl, ?_, hadmits, ?_⟩
  · rw [FileTree.reaches_iff (hdirectory' ▸ Option.some_ne_none _), hdiffer.elsewhere _ hspot]
    exact hfound
  · obtain ⟨content, hread⟩ := FileTree.isFile_iff.1 hfile
    exact FileTree.isFile_iff.2 ⟨content, hdiffer.read hunfound hread⟩
  · intro name' hname'
    obtain rfl : name = name' := Option.some.inj (hignore.symm.trans hname')
    rw [ignoreLines_of_apart hname hdiffer hlinks htop hfound hapart]
    exact hspares name hname'

include hignore in
theorem mem_filesUnder_iff_of_apart (htop : t.locate root = .ok top)
    (hdirectory : t.lookup top = some .directory) (h : s.filesUnder t root = .ok files)
    (h' : s.filesUnder t' root = .ok files') (path : Path) :
    (path ∈ files' ↔ path ∈ files) ∨ ∃ below, below ≠ [] ∧
      (t.locate path = .ok (top ++ below) ∨ t'.locate path = .ok (top ++ below)) ∧
      Governs top d names (top ++ below) := by
  have hlinks' := hdiffer.linkFree hlinks
  have htop' := hdiffer.locate_directory htop hdirectory
  have hdirectory' := hdiffer.lookup_directory hdirectory
  refine or_iff_not_imp_right.2 fun hapart => ⟨fun hpath => ?_, fun hpath => ?_⟩
  · refine (mem_filesUnder_of_apart hignore hname hdiffer.symm hlinks' htop' hdirectory' h' h
      hpath).resolve_right ?_
    rintro ⟨below, hne, hlocate, hgoverned⟩
    exact hapart ⟨below, hne, .inr hlocate, hgoverned⟩
  · refine (mem_filesUnder_of_apart hignore hname hdiffer hlinks htop hdirectory h h'
      hpath).resolve_right ?_
    rintro ⟨below, hne, hlocate, hgoverned⟩
    exact hapart ⟨below, hne, .inl hlocate, hgoverned⟩

omit hname in
/-- A file whose parent has the ignore file that differs lies in the directory of that file. -/
theorem location_of_startsAt {q : Path} {file : String} {loc : Location}
    (hparent : path.parent? = some q) (hstarts : t.StartsAt q d) (hfile : path.fileName? = some file)
    (hloc : t.locate path = .ok loc ∨ t'.locate path = .ok loc) : loc = d ++ [file.toList] := by
  rcases hloc with hloc | hloc
  · exact hlinks.location_of_parent? hparent hstarts hfile hloc
  · exact (hdiffer.linkFree hlinks).location_of_parent? hparent (hdiffer.startsAt hstarts) hfile hloc

end TwoTrees

section Legible

variable (hignore : s.ignoreFile = some name) (hlegible : ∀ q : Path, ¬t.IsIllegible (q.join name))
include hignore hlegible

/-- A walk that meets only ignore files that are texts selects some files. -/
theorem exists_filesUnder (htop : t.locate root = .ok top)
    (hdirectory : t.lookup top = some .directory) : ∃ files, s.filesUnder t root = .ok files := by
  cases hfiles : s.filesUnder t root with
  | ok files => exact ⟨files, rfl⟩
  | error e =>
    obtain ⟨names, -, -, -, name', hname', depth, -, hillegible⟩ :=
      (filesUnder_eq_error_iff htop hdirectory s).1 ⟨e, hfiles⟩
    obtain rfl : name = name' := Option.some.inj (hignore.symm.trans hname')
    exact absurd hillegible (hlegible _)

/-- What is decided of a file asked for by itself. -/
theorem selectsFile_eq (path : Path) : s.selectsFile t path =
    .ok (s.selectsByName path path && !path.parent?.any fun q =>
      isIgnoredAfter path false q (t.patternsAt (q.join name))) := by
  have hfollows := follows_selects (fun name' h => Option.some.inj (h.symm.trans hignore)) t none path
  have hafresh : isIgnoredAfresh t name none path = .ok (path.parent?.any fun q =>
      isIgnoredAfter path false q (t.patternsAt (q.join name))) := by
    rw [isIgnoredAfresh, ignoreDirectories_none,
      foldlM_isIgnoredAfter_of_not_isIllegible fun q _ => hlegible q]
    cases path.parent? <;> rfl
  rw [selectsFile, hfollows.run'_empty, selectsAfresh]
  simp only [Option.bind_none, Option.getD_none, hignore, hafresh]
  cases s.selectsByName path path <;> rfl

end Legible

/--
In trees that differ in one ignore file alone, whose name leads down, walks differ below its
directory alone.
-/
theorem ignoreFile_local (hignore : s.ignoreFile = some name) (hname : Path.LeadsDown name names)
    (hdiffer : t.DifferAt t' (d ++ names)) (hlinks : t.LinkFree)
    (hlegible : ∀ q : Path, ¬t.IsIllegible (q.join name))
    (hlegible' : ∀ q : Path, ¬t'.IsIllegible (q.join name)) :
    (∀ root top, t.locate root = .ok top → t.lookup top = some .directory →
      ∃ files files', s.filesUnder t root = .ok files ∧ s.filesUnder t' root = .ok files' ∧
        (¬top <+: (d ++ names).dropLast → files' = files) ∧
        ∀ path, (path ∈ files' ↔ path ∈ files) ∨
          ∃ loc, (t.locate path = .ok loc ∨ t'.locate path = .ok loc) ∧ Governs top d names loc) ∧
    ∀ path, ∃ selected selected', s.selectsFile t path = .ok selected ∧
      s.selectsFile t' path = .ok selected' ∧
      (selected' = selected ∨ ∃ q, path.parent? = some q ∧ t.StartsAt q d ∧
        ∀ file loc, path.fileName? = some file →
          t.locate path = .ok loc ∨ t'.locate path = .ok loc → loc = d ++ [file.toList]) := by
  constructor
  · intro root top htop hdirectory
    have htop' := hdiffer.locate_directory htop hdirectory
    have hdirectory' := hdiffer.lookup_directory hdirectory
    obtain ⟨files, hfiles⟩ := exists_filesUnder hignore hlegible htop hdirectory
    obtain ⟨files', hfiles'⟩ := exists_filesUnder hignore hlegible' htop' hdirectory'
    have hmem := mem_filesUnder_iff_of_apart hignore hname hdiffer hlinks htop hdirectory hfiles hfiles'
    refine ⟨files, files', hfiles, hfiles', fun hapart => ?_, fun path => ?_⟩
    · refine Sorting.eq_of_mem_iff (pairwise_filesUnder hfiles') (pairwise_filesUnder hfiles) fun path =>
        (hmem path).resolve_right ?_
      rintro ⟨below, hne, -, hgoverned⟩
      exact hapart (hgoverned.isPrefix hne hname.nonempty)
    · refine (hmem path).imp_right ?_
      rintro ⟨below, -, hlocate, hgoverned⟩
      exact ⟨_, hlocate, hgoverned⟩
  · intro path
    refine ⟨_, _, selectsFile_eq hignore hlegible path, selectsFile_eq hignore hlegible' path, ?_⟩
    cases hparent : path.parent? with
    | none => exact .inl rfl
    | some q =>
      by_cases hstarts : t.StartsAt q d
      · exact .inr ⟨q, rfl, hstarts, fun file loc =>
          location_of_startsAt hdiffer hlinks hparent hstarts⟩
      · rw [Option.any_some, Option.any_some, patternsAt_join hname hdiffer hlinks hstarts]
        exact .inl rfl

section PairedTrees

def libTree : FileTree := sourceTree.put ["lib".toList] .directory

def ignoringTree : FileTree :=
  libTree.put (["lib".toList] ++ [".visibilityignore".toList]) (.file "*.kt".toUTF8 ⟨2, 0⟩)

def ignoringSelection : Selection := ⟨[".kt"], [], [], some ".visibilityignore"⟩

theorem holdsTexts_libTree : libTree.HoldsTexts :=
  ((FileTree.holdsTexts_empty.put _ (.inl rfl)).put _ (.inr ⟨"class A", _, rfl⟩)).put _ (.inl rfl)

theorem holdsTexts_ignoringTree : ignoringTree.HoldsTexts :=
  holdsTexts_libTree.put _ (.inr ⟨"*.kt", _, rfl⟩)

theorem differAt_ignoringTree :
    libTree.DifferAt ignoringTree (["lib".toList] ++ [".visibilityignore".toList]) := by
  refine FileTree.differAt_put (by decide) (fun e he => ?_) _ _
  cases he

theorem lookup_src_libTree : libTree.lookup ["src".toList] = some .directory := rfl

theorem locate_src_libTree : libTree.locate ⟨"src"⟩ = .ok ["src".toList] :=
  FileTree.locate_of_named (by decide) lookup_src_libTree FileTree.directory_ne_link (by decide)

theorem ignoreFile_local_ignoringTree :
    libTree.DifferAt ignoringTree (["lib".toList] ++ [".visibilityignore".toList]) ∧
      libTree.LinkFree ∧ ∃ files, ignoringSelection.filesUnder libTree ⟨"src"⟩ = .ok files ∧
        ignoringSelection.filesUnder ignoringTree ⟨"src"⟩ = .ok files := by
  have hlinks := holdsTexts_libTree.linkFree
  obtain ⟨hwalks, -⟩ := ignoreFile_local (s := ignoringSelection) rfl
    (Path.leadsDown_of_isName (by decide)) differAt_ignoringTree hlinks
    (fun q => holdsTexts_libTree.not_isIllegible _) fun q => holdsTexts_ignoringTree.not_isIllegible _
  obtain ⟨files, files', hfiles, hfiles', hsame, -⟩ :=
    hwalks ⟨"src"⟩ _ locate_src_libTree lookup_src_libTree
  rw [hsame (by decide)] at hfiles'
  exact ⟨differAt_ignoringTree, hlinks, files, hfiles, hfiles'⟩

def rulesTree : FileTree := libTree.put ["rules".toList] (.file "*.kt".toUTF8 ⟨2, 0⟩)

/-- The ignore file of a directory is looked for beside it. -/
def besideSelection : Selection := ⟨[".kt"], [], [], some "../rules"⟩

theorem holdsTexts_rulesTree : rulesTree.HoldsTexts :=
  holdsTexts_libTree.put _ (.inr ⟨"*.kt", _, rfl⟩)

theorem differAt_rulesTree : libTree.DifferAt rulesTree ["rules".toList] := by
  refine FileTree.differAt_put (by decide) (fun e he => ?_) _ _
  cases he

theorem locate_lib_rulesTree : rulesTree.locate ⟨"lib"⟩ = .ok ["lib".toList] :=
  FileTree.locate_of_named (e := .directory) (by decide) rfl FileTree.directory_ne_link (by decide)

/-- From a directory the name leads on from the directory above it. -/
theorem exists_locate_rules_iff (htop : t.locate root = .ok top)
    (hdirectory : t.lookup top = some .directory) :
    ∃ links, ∀ loc, t.locate (root.join "../rules") = .ok loc ↔
      t.follow true links top.dropLast ["rules".toList] = .ok (.existing loc) := by
  have hpieces : Path.pieces "../rules".toList = [['.', '.'], "rules".toList] := by decide
  obtain ⟨links, hfollow⟩ := FileTree.follow_append_of_directory rfl (FileTree.follow_trunk htop)
    hdirectory (Path.pieces "../rules".toList)
  refine ⟨links, fun loc => ?_⟩
  rw [FileTree.locate_join (by decide) (isEmpty_of_locate htop), hfollow, hpieces, FileTree.follow,
    if_neg (by decide), if_pos rfl]

theorem locate_rules (htop : rulesTree.locate root = .ok top)
    (hdirectory : rulesTree.lookup top = some .directory) (habove : top.dropLast = []) :
    rulesTree.locate (root.join "../rules") = .ok ["rules".toList] := by
  obtain ⟨links, hlocate⟩ := exists_locate_rules_iff htop hdirectory
  have hlookup : rulesTree.lookup ([] ++ ["rules".toList]) = some (.file "*.kt".toUTF8 ⟨2, 0⟩) := rfl
  rw [hlocate, habove]
  exact FileTree.follow_of_lookup hlookup FileTree.file_ne_link

theorem patternsAt_libTree : libTree.patternsAt ((⟨"src"⟩ : Path).join "../rules") = [] := by
  obtain ⟨links, hlocate⟩ := exists_locate_rules_iff locate_src_libTree lookup_src_libTree
  cases hread : libTree.readText ((⟨"src"⟩ : Path).join "../rules") with
  | error e => rw [FileTree.patternsAt, hread]
  | ok text =>
    obtain ⟨loc, _, _, hloc, hlookup, -⟩ := FileTree.readText_eq_ok_iff_lookup.1 hread
    have hspot := FileTree.eq_append_of_follow (by decide)
      (holdsTexts_libTree.linkFree.passesNoLink _) ((hlocate loc).1 hloc)
    rw [hspot] at hlookup
    cases hlookup

theorem patternsAt_rulesTree : rulesTree.patternsAt ((⟨"src"⟩ : Path).join "../rules") =
    PathPattern.ofLines "*.kt" := by
  have htop := differAt_rulesTree.locate_directory locate_src_libTree lookup_src_libTree
  have hread := FileTree.readText_eq_ok_iff_lookup.2 ⟨_, _, _, locate_rules htop rfl rfl, rfl,
    fromUTF8?_toUTF8 "*.kt"⟩
  rw [FileTree.patternsAt, hread]

theorem ignoreLines_singleton (t : FileTree) (root : Path) (file : List Char) :
    ignoreLines t name root [file] =
      (t.patternsAt ((root.descend []).join name)).map (Prod.mk (.ofNames [file])) := by
  simp [ignoreLines, linesAt]

theorem mem_filesUnder_libTree (h : besideSelection.filesUnder libTree ⟨"src"⟩ = .ok files) :
    ⟨"src/A.kt"⟩ ∈ files := by
  have hfile : libTree.lookup (["src".toList] ++ ["A.kt".toList]) =
      some (.file "class A".toUTF8 ⟨1, 0⟩) := rfl
  have hlocate := FileTree.locate_descend_of_lookup locate_src_libTree hfile FileTree.file_ne_link
    (List.cons_ne_nil _ _)
  have hisFile : libTree.isFile (Path.descend ⟨"src"⟩ ["A.kt".toList]) = true := by
    rw [FileTree.isFile, FileTree.entry_eq_ok_iff.2 ⟨_, hlocate, hfile⟩]
  refine (mem_filesUnder_iff locate_src_libTree lookup_src_libTree h).2
    ⟨["A.kt".toList], FileTree.reaches_of_lookup hfile, rfl, hisFile, ?_, ?_⟩
  · exact ⟨⟨".kt", List.mem_cons_self, by decide⟩, absurd rfl, (lastIncludes_iff _).2 rfl⟩
  · intro name hname
    obtain rfl : "../rules" = name := Option.some.inj hname
    rw [ignoreLines_singleton, Path.descend, List.foldl_nil, patternsAt_libTree]
    exact (lastIncludes_iff _).2 rfl

theorem notMem_filesUnder_rulesTree
    (h : besideSelection.filesUnder rulesTree ⟨"src"⟩ = .ok files) : ⟨"src/A.kt"⟩ ∉ files := by
  intro hpath
  have htop := differAt_rulesTree.locate_directory locate_src_libTree lookup_src_libTree
  obtain ⟨below, hreaches, hnames, -, -, hspares⟩ := (mem_filesUnder_iff htop rfl h).1 hpath
  obtain rfl : below = ["A.kt".toList] := by
    have hsame : (Path.descend ⟨"src"⟩ below).components =
        (Path.descend ⟨"src"⟩ ["A.kt".toList]).components := by
      rw [← hnames]
      rfl
    exact Path.descend_injective hreaches.all_isName (by decide) hsame
  have hspared := hspares _ rfl
  have hpatterns : PathPattern.ofLines "*.kt" =
      [⟨false, "*.kt", ⟨[.anySequence, .literal '.', .literal 'k', .literal 't']⟩⟩] := by cbv
  rw [ignoreLines_singleton, Path.descend, List.foldl_nil, patternsAt_rulesTree, hpatterns] at hspared
  cases hspared _ rfl

/--
A name that leads up makes two directories share an ignore file, which counts for walks to one of
them only.
-/
theorem ignoreFile_shared :
    rulesTree.locate ((⟨"lib"⟩ : Path).join "../rules") = .ok ["rules".toList] ∧
      libTree.DifferAt rulesTree ["rules".toList] ∧ libTree.LinkFree ∧
      (∀ q, ¬libTree.IsIllegible q) ∧ (∀ q, ¬rulesTree.IsIllegible q) ∧
      libTree.locate ⟨"src"⟩ = .ok ["src".toList] ∧ ¬["src".toList] <+: ["lib".toList] ∧
      ∃ files files', besideSelection.filesUnder libTree ⟨"src"⟩ = .ok files ∧
        besideSelection.filesUnder rulesTree ⟨"src"⟩ = .ok files' ∧
        ⟨"src/A.kt"⟩ ∈ files ∧ ⟨"src/A.kt"⟩ ∉ files' := by
  have htop := differAt_rulesTree.locate_directory locate_src_libTree lookup_src_libTree
  have hlegible := holdsTexts_libTree.not_isIllegible
  have hlegible' := holdsTexts_rulesTree.not_isIllegible
  obtain ⟨files, hfiles⟩ := exists_filesUnder (s := besideSelection) rfl (fun q => hlegible _)
    locate_src_libTree lookup_src_libTree
  obtain ⟨files', hfiles'⟩ := exists_filesUnder (s := besideSelection) rfl (fun q => hlegible' _)
    htop rfl
  exact ⟨locate_rules locate_lib_rulesTree rfl rfl, differAt_rulesTree, holdsTexts_libTree.linkFree,
    hlegible, hlegible', locate_src_libTree, by decide, files, files', hfiles, hfiles',
    mem_filesUnder_libTree hfiles, notMem_filesUnder_rulesTree hfiles'⟩

end PairedTrees

end Selection

end ExplicitApi
