import ExplicitApi.Proofs.Selection.UnderRoot
import ExplicitApi.Run.Job

/-!
The files that paths select. Main statement: they stand in path order, each once, but a file may be
among them in several spellings.
-/
namespace ExplicitApi

namespace Selection

theorem isFile_of_mem_filesUnder {s : Selection} {t : FileTree} {root p : Path} {files : List Path}
    (h : s.filesUnder t root = .ok files) (hp : p ∈ files) : t.isFile p = true := by
  rw [filesUnder_eq] at h
  obtain ⟨found, hfound, hok⟩ := bind_eq_ok_iff.1 h
  cases hok
  have hmem : p ∈ found :=
    (PathSet.mem_of_mem_addAll PathSet.isKeyed_empty hp).resolve_left List.not_mem_nil
  exact (List.mem_filter.1 ((mem_filterM hfound).1 hmem).1).2

theorem extensions_withPattern {s s' : Selection} {raw : String}
    (h : s.withPattern raw = .ok s') : s'.extensions = s.extensions := by
  obtain ⟨p, -, h⟩ := bind_eq_ok_iff.1 h
  cases h
  rfl

theorem extensions_withInclude {s s' : Selection} {raw : String}
    (h : s.withInclude raw = .ok s') : s'.extensions = s.extensions := by
  obtain ⟨p, -, h⟩ := bind_eq_ok_iff.1 h
  cases h
  rfl

end Selection

namespace Job

variable {j : Job} {options : Options} {s : Selection} {t : FileTree} {paths files : List Path}
  {p q : Path}

theorem extensions_foldlM {f : Selection → String → Except PatternError Selection}
    (hf : ∀ s raw s', f s raw = .ok s' → s'.extensions = s.extensions) {raws : List String}
    {s' : Selection} (h : raws.foldlM (fun s raw => (f s raw).mapError Error.pattern) s = .ok s') :
    s'.extensions = s.extensions := by
  induction raws generalizing s with
  | nil =>
    cases h
    rfl
  | cons raw raws ih =>
    rw [List.foldlM_cons] at h
    obtain ⟨middle, hmiddle, hrest⟩ := bind_eq_ok_iff.1 h
    cases hstep : f s raw with
    | error e =>
      rw [hstep] at hmiddle
      cases hmiddle
    | ok stepped =>
      rw [hstep] at hmiddle
      obtain rfl : stepped = middle := Except.ok.inj hmiddle
      exact (ih hrest).trans (hf s raw stepped hstep)

/-- The options of a run add patterns, not extensions. -/
theorem extensions_selectionFor (h : j.selectionFor options = .ok s) :
    s.extensions = j.selection.extensions := by
  obtain ⟨excluding, hexclude, h⟩ := bind_eq_ok_iff.1 h
  obtain ⟨including, hinclude, h⟩ := bind_eq_ok_iff.1 h
  have hexcluding : excluding.extensions = j.selection.extensions :=
    extensions_foldlM (fun _ _ _ => Selection.extensions_withPattern) hexclude
  have hincluding : including.extensions = excluding.extensions :=
    extensions_foldlM (fun _ _ _ => Selection.extensions_withInclude) hinclude
  cases h
  split
  · exact hincluding.trans hexcluding
  · exact hincluding.trans hexcluding

theorem filesOf_of_directory {root : Path} {top : Location} (htop : t.locate root = .ok top)
    (hdirectory : t.lookup top = some .directory) : filesOf s t root = s.filesUnder t root := by
  have hentry : t.entry root = .ok .directory := FileTree.entry_eq_ok_iff.2 ⟨top, htop, hdirectory⟩
  simp [filesOf, FileTree.isFile, FileTree.isDirectory, hentry]

theorem exists_locate_of_isFile (h : t.isFile p = true) : ∃ loc, t.locate p = .ok loc := by
  obtain ⟨content, hread⟩ := FileTree.isFile_iff.1 h
  obtain ⟨modified, hentry⟩ := FileTree.read_eq_ok_iff.1 hread
  obtain ⟨loc, hloc, -⟩ := FileTree.entry_eq_ok_iff.1 hentry
  exact ⟨loc, hloc⟩

theorem isFile_of_mem_filesOf {path : Path} {found : List Path}
    (h : filesOf s t path = .ok found) (hp : p ∈ found) : t.isFile p = true := by
  unfold filesOf at h
  split at h
  · next hfile =>
    obtain ⟨selected, -, h⟩ := bind_eq_ok_iff.1 h
    cases h
    cases selected with
    | true => rwa [List.mem_singleton.1 hp]
    | false => cases hp
  · split at h
    · exact Selection.isFile_of_mem_filesUnder h hp
    · cases h
      cases hp

/-- Whether a set of paths holds what some paths contribute, in one spelling each. -/
structure Gathers (s : Selection) (t : FileTree) (paths : List Path) (set : PathSet) : Prop where
  isKeyed : set.IsKeyed
  from_paths : ∀ p ∈ set.toList, ∃ path ∈ paths, ∃ found, filesOf s t path = .ok found ∧ p ∈ found
  complete : ∀ path ∈ paths, ∃ found, filesOf s t path = .ok found ∧
    ∀ p ∈ found, ∃ q ∈ set.toList, q.components = p.components

theorem gathers_empty (s : Selection) (t : FileTree) : Gathers s t [] ∅ :=
  ⟨PathSet.isKeyed_empty, nofun, nofun⟩

theorem Gathers.addAll {set : PathSet} {path : Path} {found : List Path}
    (h : Gathers s t paths set) (hfound : filesOf s t path = .ok found) :
    Gathers s t (paths ++ [path]) (set.addAll found) := by
  refine ⟨h.isKeyed.addAll found, fun p hp => ?_, fun path' hpath' => ?_⟩
  · rcases PathSet.mem_of_mem_addAll h.isKeyed hp with hold | hnew
    · obtain ⟨path', hpath', hfrom⟩ := h.from_paths p hold
      exact ⟨path', List.mem_append_left _ hpath', hfrom⟩
    · exact ⟨path, List.mem_append_right _ (List.mem_singleton_self _), found, hfound, hnew⟩
  · rcases List.mem_append.1 hpath' with hold | hnew
    · obtain ⟨found', hfound', hall⟩ := h.complete path' hold
      refine ⟨found', hfound', fun p hp => ?_⟩
      obtain ⟨q, hq, hsame⟩ := hall p hp
      exact ⟨q, PathSet.mem_addAll_of_mem h.isKeyed hq found, hsame⟩
    · rw [List.mem_singleton.1 hnew]
      exact ⟨found, hfound, fun p hp => PathSet.exists_mem_addAll h.isKeyed hp⟩

theorem gathers_of_foldlM {done : List Path} {start result : PathSet}
    (hstart : Gathers s t done start)
    (h : paths.foldlM (fun files path => do
      return PathSet.addAll files (← filesOf s t path)) start = .ok result) :
    Gathers s t (done ++ paths) result := by
  induction paths generalizing done start with
  | nil =>
    cases h
    rwa [List.append_nil]
  | cons path paths ih =>
    rw [List.foldlM_cons] at h
    obtain ⟨middle, hmiddle, hrest⟩ := bind_eq_ok_iff.1 h
    obtain ⟨found, hfound, hok⟩ := bind_eq_ok_iff.1 hmiddle
    cases hok
    rw [List.append_cons]
    exact ih (hstart.addAll hfound) hrest

/-- The files of some paths are gathered from them, up to the limit of a run. -/
theorem exists_gathers_of_files (h : j.files options t paths = .ok files) :
    ∃ s found, j.selectionFor options = .ok s ∧ Gathers s t paths found ∧
      files <+: found.toList ∧ (options.maxFiles = none → files = found.toList) := by
  obtain ⟨s, hs, h⟩ := bind_eq_ok_iff.1 h
  obtain ⟨found, hfound, h⟩ := bind_eq_ok_iff.1 h
  have hgathers : Gathers s t ([] ++ paths) found := gathers_of_foldlM (gathers_empty s t) hfound
  refine ⟨s, found, hs, hgathers, ?_⟩
  cases h
  cases options.maxFiles with
  | none => exact ⟨List.prefix_rfl, fun _ => rfl⟩
  | some n => exact ⟨List.take_prefix n _, nofun⟩

theorem pairwise_files (h : j.files options t paths = .ok files) :
    files.Pairwise fun p q => compare p q = .lt := by
  obtain ⟨s, found, -, hgathers, hfiles, -⟩ := exists_gathers_of_files h
  exact (PathSet.pairwise_toList hgathers.isKeyed).sublist hfiles.sublist

theorem isFile_of_mem_files (h : j.files options t paths = .ok files) (hp : p ∈ files) :
    t.isFile p = true := by
  obtain ⟨s, found, -, hgathers, hfiles, -⟩ := exists_gathers_of_files h
  obtain ⟨path, -, found', hfound', hp'⟩ := hgathers.from_paths p (hfiles.subset hp)
  exact isFile_of_mem_filesOf hfound' hp'

/--
Files stand in path order, each once; one that is spelled by names from one base stands there under
one spelling.
-/
theorem files_distinct (h : j.files options t paths = .ok files) :
    (files.Pairwise fun p q => compare p q = .lt) ∧ (∀ p ∈ files, t.isFile p = true) ∧
    (options.maxFiles = none → ∃ s, j.selectionFor options = .ok s ∧
      ∀ path ∈ paths, ∃ found, filesOf s t path = .ok found ∧
        ∀ p ∈ found, ∃ q ∈ files, q.components = p.components) ∧
    ∀ base top, t.StartsAt base top → ∀ p ∈ files, ∀ q ∈ files, ∀ names names',
      p.components = base.components ++ names.map .name → t.PassesNoLink top names →
      q.components = base.components ++ names'.map .name → t.PassesNoLink top names' →
      t.locate p = t.locate q → p = q := by
  obtain ⟨s, found, hs, hgathers, hfiles, hwhole⟩ := exists_gathers_of_files h
  refine ⟨pairwise_files h, fun p hp => isFile_of_mem_files h hp, fun hmax => ?_, ?_⟩
  · rw [hwhole hmax]
    exact ⟨s, hs, hgathers.complete⟩
  · intro base top hbase p hp q hq names names' hpNames hpLinks hqNames hqLinks hsame
    obtain ⟨loc, hloc⟩ := exists_locate_of_isFile (isFile_of_mem_files h hp)
    have hpLoc : loc = top ++ names := FileTree.location_of_passesNoLink hbase hpNames hpLinks hloc
    have hqLoc : loc = top ++ names' :=
      FileTree.location_of_passesNoLink hbase hqNames hqLinks (hsame ▸ hloc)
    have hnames : names = names' := List.append_cancel_left (hpLoc.symm.trans hqLoc)
    refine PathSet.eq_of_components_eq hgathers.isKeyed (hfiles.subset hp) (hfiles.subset hq) ?_
    rw [hpNames, hqNames, hnames]

theorem files_eq (hs : j.selectionFor options = .ok s) (hmax : options.maxFiles = none) :
    j.files options t paths = (do
      let found ← paths.foldlM
        (fun files path => do return PathSet.addAll files (← filesOf s t path)) ∅
      return PathSet.toList found) := by
  rw [files, hs, hmax]
  rfl

/-- Selected files are listed as they are given, but for those with the components of another. -/
theorem files_of_isFile (hs : j.selectionFor options = .ok s) (hmax : options.maxFiles = none)
    (h : ∀ p ∈ paths, t.isFile p = true ∧ s.selectsFile t p = .ok true) :
    j.files options t paths = .ok (PathSet.addAll ∅ paths).toList := by
  have hfold : ∀ start : PathSet, paths.foldlM
      (fun files path => do return PathSet.addAll files (← filesOf s t path)) start =
        .ok (start.addAll paths) := by
    induction paths with
    | nil => exact fun _ => rfl
    | cons path paths ih =>
      obtain ⟨⟨hfile, hselected⟩, hrest⟩ := List.forall_mem_cons.1 h
      have hpath : filesOf s t path = .ok [path] := by
        rw [filesOf, if_pos hfile, hselected]
        rfl
      intro start
      rw [List.foldlM_cons, hpath]
      exact ih hrest _
  rw [files_eq hs hmax, hfold]
  rfl

def sourceJob : Job := ⟨{}, ⟨[".kt"], [], [], some ".visibilityignore"⟩⟩

open Selection (sourceTree)

theorem locate_sourceTree {base path : Path} (hbase : sourceTree.StartsAt base [])
    (hcomponents : path.components = base.components ++ ["src".toList, "A.kt".toList].map .name)
    (hend : path.parts.2.getLast?.any Path.isVoid = false) :
    sourceTree.locate path = .ok ["src".toList, "A.kt".toList] ∧
      sourceTree.isFile path = true := by
  have hlookup : sourceTree.lookup ["src".toList, "A.kt".toList] =
      some (.file "class A".toUTF8 ⟨1, 0⟩) := rfl
  have hloc : sourceTree.locate path = .ok ["src".toList, "A.kt".toList] :=
    FileTree.locate_of_lookup hbase hcomponents hlookup FileTree.file_ne_link
      (mt FileTree.endsVoid_iff.1 (by rw [hend]; exact Bool.false_ne_true))
  exact ⟨hloc, by rw [FileTree.isFile, FileTree.entry_eq_ok_iff.2 ⟨_, hloc, hlookup⟩]⟩

theorem locate_sourceTree_plain :
    sourceTree.locate ⟨"src/A.kt"⟩ = .ok ["src".toList, "A.kt".toList] ∧
      sourceTree.isFile ⟨"src/A.kt"⟩ = true :=
  locate_sourceTree (.inl ⟨rfl, rfl⟩) (by decide) (by decide)

theorem files_distinct_sourceTree :
    sourceJob.files { noIgnore := true } sourceTree [⟨"src/A.kt"⟩, ⟨"src//A.kt"⟩] =
        .ok [⟨"src/A.kt"⟩] ∧
      sourceTree.isFile ⟨"src/A.kt"⟩ = true ∧
      ∃ s, sourceJob.selectionFor { noIgnore := true } = .ok s ∧
        ∃ found, filesOf s sourceTree ⟨"src//A.kt"⟩ = .ok found ∧
          ∀ p ∈ found, ∃ q ∈ [Path.mk "src/A.kt"], q.components = p.components := by
  have hdouble : sourceTree.locate ⟨"src//A.kt"⟩ = .ok ["src".toList, "A.kt".toList] ∧
      sourceTree.isFile ⟨"src//A.kt"⟩ = true :=
    locate_sourceTree (.inl ⟨rfl, rfl⟩) (by decide) (by decide)
  have hfiles : sourceJob.files { noIgnore := true } sourceTree [⟨"src/A.kt"⟩, ⟨"src//A.kt"⟩] =
      .ok [⟨"src/A.kt"⟩] := by
    refine files_of_isFile rfl rfl fun p hp => ?_
    rcases List.mem_pair.1 hp with rfl | rfl
    · exact ⟨locate_sourceTree_plain.2, rfl⟩
    · exact ⟨hdouble.2, rfl⟩
  obtain ⟨-, hfile, hcomplete, -⟩ := files_distinct hfiles
  obtain ⟨s, hs, hall⟩ := hcomplete rfl
  exact ⟨hfiles, hfile _ (List.mem_singleton_self _), s, hs,
    hall _ (List.mem_cons_of_mem _ (List.mem_singleton_self _))⟩

/-- A dot in front makes another path of the same file. -/
theorem files_twice_sourceTree :
    Job.ofConfig {} = .ok sourceJob ∧
      sourceJob.files { noIgnore := true } sourceTree [⟨"src/A.kt"⟩, ⟨"./src/A.kt"⟩] =
        .ok [⟨"./src/A.kt"⟩, ⟨"src/A.kt"⟩] ∧
      sourceTree.locate ⟨"./src/A.kt"⟩ = .ok ["src".toList, "A.kt".toList] ∧
      sourceTree.locate ⟨"src/A.kt"⟩ = .ok ["src".toList, "A.kt".toList] := by
  have hhere : sourceTree.locate ⟨"."⟩ = .ok [] := by
    have hparts : (⟨"."⟩ : Path).parts = (.current, []) := by decide
    rw [FileTree.locate_eq_ok_iff_parts, hparts, FileTree.follow]
    exact ⟨rfl, rfl⟩
  have hdot : sourceTree.StartsAt ⟨"."⟩ [] := .inr ⟨hhere, rfl⟩
  have hdotted : sourceTree.locate ⟨"./src/A.kt"⟩ = .ok ["src".toList, "A.kt".toList] ∧
      sourceTree.isFile ⟨"./src/A.kt"⟩ = true := locate_sourceTree hdot (by decide) (by decide)
  refine ⟨rfl, ?_, hdotted.1, locate_sourceTree_plain.1⟩
  refine files_of_isFile rfl rfl fun p hp => ?_
  rcases List.mem_pair.1 hp with rfl | rfl
  · exact ⟨locate_sourceTree_plain.2, rfl⟩
  · exact ⟨hdotted.2, rfl⟩

end Job

end ExplicitApi
