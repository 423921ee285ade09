import ExplicitApi.Proofs.Selection.Consulting
import ExplicitApi.Proofs.Selection.PathSet

/-!
What a walk selects: the files under its root that name and patterns admit and that no ignore file on
the way excludes; it fails when such an ignore file is no text.
-/
namespace ExplicitApi

section Lists

variable {α β ε : Type} {f : α → Except ε Bool} {l : List α}

/-- Where a later one overrides those before, the last that applies decides. -/
theorem foldl_override (applies : α → Bool) (gives : α → β) (l : List α) (before : β) :
    l.foldl (fun found a => if applies a then gives a else found) before =
      ((l.filter applies).getLast?.map gives).getD before := by
  induction l using List.reverseRecOn with
  | nil => rfl
  | append_singleton l a ih =>
    rw [List.foldl_append, ih, List.filter_append]
    by_cases ha : applies a = true
    · simp [ha]
    · simp [ha]

theorem mem_filterAuxM {acc kept : List α} (h : l.filterAuxM f acc = .ok kept) {a : α} :
    a ∈ kept ↔ a ∈ acc ∨ a ∈ l ∧ f a = .ok true := by
  induction l generalizing acc with
  | nil =>
    cases h
    simp
  | cons b l ih =>
    obtain ⟨keep, hkeep, hrest⟩ := bind_eq_ok_iff.1 h
    rw [ih hrest]
    by_cases hab : a = b
    · subst hab
      cases keep <;> simp [hkeep]
    · cases keep <;> simp [hab]

theorem mem_filterM {kept : List α} (h : l.filterM f = .ok kept) {a : α} :
    a ∈ kept ↔ a ∈ l ∧ f a = .ok true := by
  obtain ⟨reversed, hreversed, hkept⟩ := bind_eq_ok_iff.1 h
  cases hkept
  rw [List.mem_reverse, mem_filterAuxM hreversed]
  simp

theorem filterAuxM_eq_error_iff (acc : List α) :
    (∃ e, l.filterAuxM f acc = .error e) ↔ ∃ a ∈ l, ∃ e, f a = .error e := by
  induction l generalizing acc with
  | nil => simp [List.filterAuxM, pure, Except.pure]
  | cons b l ih =>
    rw [List.exists_mem_cons_iff, List.filterAuxM]
    cases hb : f b with
    | error e => simp [bind, Except.bind]
    | ok keep => simpa [bind, Except.bind] using ih (cond keep (b :: acc) acc)

theorem exists_error_bind_pure (x : Except ε α) (g : α → β) :
    (∃ e, (x >>= fun a => pure (g a)) = .error e) ↔ ∃ e, x = .error e := by
  cases x with
  | error e => simp [bind, Except.bind]
  | ok a => simp [bind, Except.bind, pure, Except.pure]

theorem filterM_eq_error_iff :
    (∃ e, l.filterM f = .error e) ↔ ∃ a ∈ l, ∃ e, f a = .error e := by
  rw [← filterAuxM_eq_error_iff []]
  exact exists_error_bind_pure _ _

end Lists

namespace Selection

variable {s : Selection} {t : FileTree} {top : Location} {root : Path} {names : List (List Char)}
  {name : String}

/-- Whether the last of the patterns that match what they are to see, if there is one, includes. -/
def LastIncludes (lines : List (Path × PathPattern)) : Prop :=
  ∀ line, (lines.filter fun line => line.2.isMatch line.1).getLast? = some line →
    line.2.isInclude = true

/-- What the ignore file so many names below a root says, with the path as its directory sees it. -/
def linesAt (t : FileTree) (name : String) (root : Path) (names : List (List Char)) (depth : Nat) :
    List (Path × PathPattern) :=
  (t.patternsAt ((root.descend (names.take depth)).join name)).map
    (Prod.mk (.ofNames (names.drop depth)))

/-- The lines of the ignore files from a root down, those of a directory behind those above it. -/
def ignoreLines (t : FileTree) (name : String) (root : Path) (names : List (List Char)) :
    List (Path × PathPattern) :=
  (List.range names.length).flatMap (linesAt t name root names)

/-- Whether extension, includes and patterns admit what names lead to from a root. -/
structure Admits (s : Selection) (root : Path) (names : List (List Char)) : Prop where
  extension : ∃ extension ∈ s.extensions,
    extension.toList <:+ (root.descend names).spelling.toList
  includes : s.includes ≠ [] → ∃ p ∈ s.includes, p.isMatch (.ofNames names) = true
  patterns : LastIncludes (s.patterns.map (Prod.mk (.ofNames names)))

/-- Whether the ignore files on the way, if they count, do not exclude what names lead to. -/
def Spares (s : Selection) (t : FileTree) (root : Path) (names : List (List Char)) : Prop :=
  ∀ name, s.ignoreFile = some name → LastIncludes (ignoreLines t name root names)

def MeetsIllegible (s : Selection) (t : FileTree) (root : Path) (names : List (List Char)) : Prop :=
  ∃ name, s.ignoreFile = some name ∧
    ∃ depth < names.length, t.IsIllegible ((root.descend (names.take depth)).join name)

def lastSays (lines : List (Path × PathPattern)) (before : Bool) : Bool :=
  lines.foldl (fun found line => if line.2.isMatch line.1 then line.2.isInclude else found) before

theorem lastSays_append (lines rest : List (Path × PathPattern)) (before : Bool) :
    lastSays (lines ++ rest) before = lastSays rest (lastSays lines before) :=
  List.foldl_append

theorem lastIncludes_iff (lines : List (Path × PathPattern)) :
    LastIncludes lines ↔ lastSays lines true = true := by
  rw [lastSays, foldl_override (fun line : Path × PathPattern => line.2.isMatch line.1),
    LastIncludes]
  cases (lines.filter fun line => line.2.isMatch line.1).getLast? with
  | none => simp
  | some line => simp

theorem verdict_eq_lastSays (patterns : List PathPattern) (path : Path) (before : Bool) :
    PathPattern.verdict patterns path before = lastSays (patterns.map (Prod.mk path)) before := by
  rw [lastSays, List.foldl_map, PathPattern.verdict]

theorem hasExtension_iff {path : Path} :
    s.hasExtension path = true ↔ ∃ extension ∈ s.extensions,
      extension.toList <:+ path.spelling.toList := by
  simp [hasExtension, List.isSuffixOf_iff_suffix]

theorem selectsByName_iff :
    s.selectsByName (root.descend names) (.ofNames names) = true ↔ s.Admits root names := by
  have hincludes : (s.includes.isEmpty || s.includes.any fun p => p.isMatch (.ofNames names)) =
      true ↔ (s.includes ≠ [] → ∃ p ∈ s.includes, p.isMatch (.ofNames names) = true) := by
    rw [Bool.or_eq_true, List.isEmpty_iff, List.any_eq_true, or_iff_not_imp_left]
  have hpatterns : PathPattern.verdict s.patterns (.ofNames names) true = true ↔
      LastIncludes (s.patterns.map (Prod.mk (.ofNames names))) := by
    rw [verdict_eq_lastSays, lastIncludes_iff]
  rw [selectsByName, Bool.and_eq_true, Bool.and_eq_true, hasExtension_iff, hincludes, hpatterns]
  constructor
  · rintro ⟨⟨he, hi⟩, hp⟩
    exact ⟨he, hi, hp⟩
  · rintro ⟨he, hi, hp⟩
    exact ⟨⟨he, hi⟩, hp⟩

def byExtension (extensions : List String) : Selection := ⟨extensions, [], [], none⟩

theorem admits_byExtension_iff {extensions : List String} :
    (byExtension extensions).Admits root names ↔
      (byExtension extensions).hasExtension (root.descend names) = true := by
  rw [hasExtension_iff]
  constructor
  · exact fun h => h.extension
  · intro h
    have hpatterns : LastIncludes [] := by
      intro line hline
      cases hline
    exact ⟨h, fun hne => absurd rfl hne, hpatterns⟩

theorem spares_byExtension {extensions : List String} :
    (byExtension extensions).Spares t root names := by
  intro name hname
  cases hname

theorem not_meetsIllegible_byExtension {extensions : List String} :
    ¬(byExtension extensions).MeetsIllegible t root names := by
  intro h
  obtain ⟨name, hname, -⟩ := h
  cases hname

/-- In a walk the directories whose ignore files count are those on the way from the root. -/
theorem ignoreDirectories_descend (root : Path) (h : names.all Path.isName = true)
    (hne : names ≠ []) :
    ignoreDirectories (some root) (root.descend names) = root.stations names := by
  have hstarts : (root.descend names).startsWith root = true := by
    rw [Path.startsWith, Path.components_descend root h, List.isPrefixOf_iff_prefix]
    exact List.prefix_append _ _
  obtain ⟨above, habove⟩ := Path.properAncestors_descend root h
  obtain ⟨below, hstations, hbelow⟩ := Path.stations_cons root h hne
  have hancestors : (root.descend names).properAncestors =
      below.reverse ++ root.holder :: above := by
    rw [habove, hstations, List.reverse_cons, List.append_assoc]
    rfl
  have hroot : root.holder.same root = true := by
    rw [Path.same, Path.components_holder, beq_self_eq_true]
  have hkept : (below.reverse ++ root.holder :: above).takeWhile (fun dir => !dir.same root) =
      below.reverse := by
    rw [List.takeWhile_append_of_pos fun dir hdir => by simp [hbelow dir (List.mem_reverse.1 hdir)],
      List.takeWhile_cons_of_neg (by simp [hroot]), List.append_nil]
  unfold ignoreDirectories
  simp only [Option.filter_some, hstarts, if_true, hancestors, hkept, List.drop_left]
  rw [hstations, List.take_succ_cons, List.take_zero, List.reverse_append, List.reverse_reverse]
  rfl

theorem foldlM_isIgnoredAfter_of_isIllegible {path : Path} {directories : List Path}
    {directory : Path} (hmem : directory ∈ directories)
    (hillegible : t.IsIllegible (directory.join name)) (ignored : Bool) :
    ∃ e, directories.foldlM (fun ignored directory => do
      return isIgnoredAfter path ignored directory (← ignorePatterns t name directory)) ignored =
        .error e := by
  induction directories generalizing ignored with
  | nil => cases hmem
  | cons first rest ih =>
    rw [List.foldlM_cons]
    cases hfirst : ignorePatterns t name first with
    | error e => exact ⟨e, rfl⟩
    | ok patterns =>
      have hrest : directory ∈ rest := by
        rcases List.mem_cons.1 hmem with rfl | hrest
        · exact absurd hillegible (ignorePatterns_eq_ok_iff.1 hfirst).1
        · exact hrest
      exact ih hrest _

theorem foldlM_isIgnoredAfter_of_not_isIllegible {path : Path} {directories : List Path}
    (h : ∀ directory ∈ directories, ¬t.IsIllegible (directory.join name)) (ignored : Bool) :
    directories.foldlM (fun ignored directory => do
      return isIgnoredAfter path ignored directory (← ignorePatterns t name directory)) ignored =
        .ok (directories.foldl (fun ignored directory =>
          isIgnoredAfter path ignored directory (t.patternsAt (directory.join name))) ignored) := by
  induction directories generalizing ignored with
  | nil => rfl
  | cons first rest ih =>
    rw [List.foldlM_cons, ignorePatterns_of_not_isIllegible (h first List.mem_cons_self)]
    exact ih (fun directory hmem => h directory (List.mem_cons_of_mem _ hmem)) _

theorem isIgnoredAfter_descend (hroot : root.components ≠ []) (h : names.all Path.isName = true)
    {depth : Nat} (hdepth : depth < names.length) (ignored : Bool) :
    isIgnoredAfter (root.descend names) ignored (root.descend (names.take depth)).holder
        (t.patternsAt ((root.descend (names.take depth)).holder.join name)) =
      !lastSays (linesAt t name root names depth) !ignored := by
  have hcomponents := Path.components_holder (root.descend (names.take depth))
  have hsplit : names.take depth ++ names.drop depth = names := List.take_append_drop depth names
  have hall : (names.take depth ++ names.drop depth).all Path.isName = true := by
    rw [hsplit]
    exact h
  have hrest : names.drop depth ≠ [] := by
    rw [Ne, List.drop_eq_nil_iff]
    omega
  have hrelative := Path.relativeTo?_descend hcomponents hroot hall hrest
  rw [hsplit] at hrelative
  rw [isIgnoredAfter, hrelative, FileTree.patternsAt_join_congr hcomponents, linesAt,
    ← verdict_eq_lastSays]

/-- The ignore files together exclude what the last of their lines that matches excludes. -/
theorem foldl_isIgnoredAfter (hroot : root.components ≠ []) (h : names.all Path.isName = true)
    {depths : List Nat} (hdepths : ∀ depth ∈ depths, depth < names.length) (ignored : Bool) :
    (depths.map fun depth => (root.descend (names.take depth)).holder).foldl
        (fun ignored directory => isIgnoredAfter (root.descend names) ignored directory
          (t.patternsAt (directory.join name))) ignored =
      !lastSays (depths.flatMap (linesAt t name root names)) !ignored := by
  induction depths generalizing ignored with
  | nil => simp [lastSays]
  | cons depth depths ih =>
    have hdepth := hdepths depth List.mem_cons_self
    rw [List.map_cons, List.foldl_cons, isIgnoredAfter_descend hroot h hdepth,
      ih (fun depth hmem => hdepths depth (List.mem_cons_of_mem _ hmem)), List.flatMap_cons,
      lastSays_append, Bool.not_not]

theorem isIgnoredAfresh_of_isIllegible (h : names.all Path.isName = true) {depth : Nat}
    (hdepth : depth < names.length)
    (hillegible : t.IsIllegible ((root.descend (names.take depth)).join name)) :
    ∃ e, isIgnoredAfresh t name (some root) (root.descend names) = .error e := by
  have hne : names ≠ [] := List.ne_nil_of_length_pos (by omega)
  rw [isIgnoredAfresh, ignoreDirectories_descend root h hne]
  have hmem : (root.descend (names.take depth)).holder ∈ root.stations names :=
    List.mem_map.2 ⟨depth, List.mem_range.2 hdepth, rfl⟩
  refine foldlM_isIgnoredAfter_of_isIllegible hmem ?_ false
  rwa [FileTree.isIllegible_join_congr (Path.components_holder _)]

theorem isIgnoredAfresh_descend (hroot : root.components ≠ []) (h : names.all Path.isName = true)
    (hne : names ≠ []) (hlegible : ∀ depth < names.length,
      ¬t.IsIllegible ((root.descend (names.take depth)).join name)) :
    ∃ ignored, isIgnoredAfresh t name (some root) (root.descend names) = .ok ignored ∧
      (ignored = false ↔ LastIncludes (ignoreLines t name root names)) := by
  have hdirectories : ∀ directory ∈ root.stations names, ¬t.IsIllegible (directory.join name) := by
    intro directory hmem
    obtain ⟨depth, hdepth, rfl⟩ := List.mem_map.1 hmem
    rw [FileTree.isIllegible_join_congr (Path.components_holder _)]
    exact hlegible depth (List.mem_range.1 hdepth)
  rw [isIgnoredAfresh, ignoreDirectories_descend root h hne,
    foldlM_isIgnoredAfter_of_not_isIllegible hdirectories, Path.stations,
    foldl_isIgnoredAfter hroot h fun depth hdepth => List.mem_range.1 hdepth]
  refine ⟨_, rfl, ?_⟩
  rw [Bool.not_eq_false', lastIncludes_iff]
  rfl

/-- What is decided of a path in a walk, with each ignore file read afresh. -/
theorem selectsAfresh_descend (s : Selection) (t : FileTree) (hroot : root.components ≠ [])
    (h : names.all Path.isName = true) (hne : names ≠ []) :
    (s.selectsAfresh t (some root) (root.descend names) = .ok true ↔
      s.Admits root names ∧ s.Spares t root names ∧ ¬s.MeetsIllegible t root names) ∧
    ((∃ e, s.selectsAfresh t (some root) (root.descend names) = .error e) ↔
      s.Admits root names ∧ s.MeetsIllegible t root names) := by
  have hrelative : (root.descend ([] ++ names)).relativeTo? root = some (.ofNames names) :=
    Path.relativeTo?_descend rfl hroot h hne
  rw [List.nil_append] at hrelative
  unfold selectsAfresh
  simp only [Option.bind_some, hrelative, Option.getD_some]
  by_cases hadmits : s.Admits root names
  · rw [if_pos (selectsByName_iff.2 hadmits)]
    cases hignore : s.ignoreFile with
    | none => simp [hadmits, Spares, MeetsIllegible, hignore, pure, Except.pure]
    | some name =>
      by_cases hlegible : ∀ depth < names.length,
          ¬t.IsIllegible ((root.descend (names.take depth)).join name)
      · obtain ⟨ignored, hignored, hspared⟩ := isIgnoredAfresh_descend hroot h hne hlegible
        have hmeets : ¬s.MeetsIllegible t root names := by
          rintro ⟨name', hname', depth, hdepth, hillegible⟩
          cases hignore.symm.trans hname'
          exact hlegible depth hdepth hillegible
        have hspares : s.Spares t root names ↔ ignored = false := by
          simp [Spares, hignore, hspared]
        simp [hignored, hmeets, hspares, hadmits, bind, Except.bind, pure, Except.pure]
      · simp only [not_forall, not_not] at hlegible
        obtain ⟨depth, hdepth, hillegible⟩ := hlegible
        obtain ⟨e, he⟩ := isIgnoredAfresh_of_isIllegible h hdepth hillegible
        have hmeets : s.MeetsIllegible t root names := ⟨name, hignore, depth, hdepth, hillegible⟩
        simp [he, hmeets, hadmits, bind, Except.bind]
  · rw [if_neg (mt selectsByName_iff.1 hadmits)]
    simp [hadmits, pure, Except.pure]

theorem isEmpty_of_locate (htop : t.locate root = .ok top) : root.isEmpty = false := by
  by_contra hempty
  rw [FileTree.locate, FileTree.resolve, if_pos (by simpa using hempty)] at htop
  cases htop

section Directory

variable (htop : t.locate root = .ok top) (hdirectory : t.lookup top = some .directory)
include htop hdirectory

theorem ne_nil_of_isFile_descend (hfile : t.isFile (root.descend names) = true) : names ≠ [] := by
  rintro rfl
  have hentry : t.entry (root.descend []) = .ok .directory :=
    FileTree.entry_eq_ok_iff.2 ⟨top, htop, hdirectory⟩
  rw [FileTree.isFile, hentry] at hfile
  cases hfile

theorem mem_filter_walk_iff {path : Path} :
    path ∈ (t.walk root).filter t.isFile ↔
      ∃ names, t.Reaches top names ∧ path = root.descend names ∧ t.isFile path = true := by
  rw [List.mem_filter, FileTree.mem_walk_iff htop hdirectory]
  constructor
  · rintro ⟨⟨names, hnames, hpath⟩, hfile⟩
    exact ⟨names, hnames, hpath, hfile⟩
  · rintro ⟨names, hnames, hpath, hfile⟩
    exact ⟨⟨names, hnames, hpath⟩, hfile⟩

theorem selectsAfresh_of_reaches (s : Selection) (hnames : t.Reaches top names)
    (hfile : t.isFile (root.descend names) = true) :
    (s.selectsAfresh t (some root) (root.descend names) = .ok true ↔
      s.Admits root names ∧ s.Spares t root names ∧ ¬s.MeetsIllegible t root names) ∧
    ((∃ e, s.selectsAfresh t (some root) (root.descend names) = .error e) ↔
      s.Admits root names ∧ s.MeetsIllegible t root names) :=
  s.selectsAfresh_descend t (Path.components_ne_nil (isEmpty_of_locate htop)) hnames.all_isName
    (ne_nil_of_isFile_descend htop hdirectory hfile)

theorem filterM_selectsAfresh_eq_error_iff (s : Selection) :
    (∃ e, ((t.walk root).filter t.isFile).filterM (s.selectsAfresh t (some root)) = .error e) ↔
      ∃ names, t.Reaches top names ∧ t.isFile (root.descend names) = true ∧
        s.Admits root names ∧ s.MeetsIllegible t root names := by
  rw [filterM_eq_error_iff]
  constructor
  · rintro ⟨path, hpath, herror⟩
    obtain ⟨names, hnames, rfl, hfile⟩ := (mem_filter_walk_iff htop hdirectory).1 hpath
    have hspec := selectsAfresh_of_reaches htop hdirectory s hnames hfile
    exact ⟨names, hnames, hfile, hspec.2.1 herror⟩
  · rintro ⟨names, hnames, hfile, hmeets⟩
    have hspec := selectsAfresh_of_reaches htop hdirectory s hnames hfile
    exact ⟨_, (mem_filter_walk_iff htop hdirectory).2 ⟨names, hnames, rfl, hfile⟩,
      hspec.2.2 hmeets⟩

theorem mem_filterM_selectsAfresh_iff {s : Selection} {found : List Path}
    (hfound : ((t.walk root).filter t.isFile).filterM (s.selectsAfresh t (some root)) = .ok found)
    {path : Path} :
    path ∈ found ↔ ∃ names, t.Reaches top names ∧ path = root.descend names ∧
      t.isFile path = true ∧ s.Admits root names ∧ s.Spares t root names := by
  rw [mem_filterM hfound, mem_filter_walk_iff htop hdirectory]
  constructor
  · rintro ⟨⟨names, hnames, rfl, hfile⟩, hok⟩
    have hspec := selectsAfresh_of_reaches htop hdirectory s hnames hfile
    obtain ⟨hadmits, hspares, -⟩ := hspec.1.1 hok
    exact ⟨names, hnames, rfl, hfile, hadmits, hspares⟩
  · rintro ⟨names, hnames, rfl, hfile, hadmits, hspares⟩
    -- otherwise the walk had failed
    have hmeets : ¬s.MeetsIllegible t root names := by
      intro hmeets
      obtain ⟨e, he⟩ := (filterM_selectsAfresh_eq_error_iff htop hdirectory s).2
        ⟨names, hnames, hfile, hadmits, hmeets⟩
      cases hfound.symm.trans he
    have hspec := selectsAfresh_of_reaches htop hdirectory s hnames hfile
    exact ⟨⟨names, hnames, rfl, hfile⟩, hspec.1.2 ⟨hadmits, hspares, hmeets⟩⟩

theorem filesUnder_eq_error_iff (s : Selection) :
    (∃ e, s.filesUnder t root = .error e) ↔
      ∃ names, t.Reaches top names ∧ t.isFile (root.descend names) = true ∧
        s.Admits root names ∧ s.MeetsIllegible t root names := by
  rw [filesUnder_eq, ← filterM_selectsAfresh_eq_error_iff htop hdirectory]
  exact exists_error_bind_pure _ _

theorem mem_filesUnder_iff {s : Selection} {files : List Path}
    (h : s.filesUnder t root = .ok files) {path : Path} :
    path ∈ files ↔ ∃ names, t.Reaches top names ∧ path = root.descend names ∧
      t.isFile path = true ∧ s.Admits root names ∧ s.Spares t root names := by
  rw [filesUnder_eq] at h
  obtain ⟨found, hfound, hok⟩ := bind_eq_ok_iff.1 h
  cases hok
  have hdistinct : ∀ p ∈ found, ∀ q ∈ found, p.components = q.components → p = q := by
    intro p hp q hq hsame
    obtain ⟨names, hnames, rfl, -⟩ := (mem_filterM_selectsAfresh_iff htop hdirectory hfound).1 hp
    obtain ⟨names', hnames', rfl, -⟩ := (mem_filterM_selectsAfresh_iff htop hdirectory hfound).1 hq
    rw [Path.descend_injective hnames.all_isName hnames'.all_isName hsame]
  rw [PathSet.mem_addAll_empty_iff hdistinct, mem_filterM_selectsAfresh_iff htop hdirectory hfound]

end Directory

theorem exists_isKeyed_of_filesUnder {files : List Path} (h : s.filesUnder t root = .ok files) :
    ∃ found : PathSet, found.IsKeyed ∧ files = found.toList := by
  obtain ⟨found, -, hok⟩ := bind_eq_ok_iff.1 h
  cases hok
  exact ⟨_, PathSet.isKeyed_empty.addAll found, rfl⟩

theorem pairwise_filesUnder {files : List Path} (h : s.filesUnder t root = .ok files) :
    files.Pairwise fun p q => compare p q = .lt := by
  obtain ⟨found, hkeyed, rfl⟩ := exists_isKeyed_of_filesUnder h
  exact PathSet.pairwise_toList hkeyed

def sourceTree : FileTree :=
  (FileTree.empty.put ["src".toList] .directory).put ["src".toList, "A.kt".toList]
    (.file "class A".toUTF8 ⟨1, 0⟩)

end Selection

end ExplicitApi
