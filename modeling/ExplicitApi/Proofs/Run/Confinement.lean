import ExplicitApi.Proofs.Run.Effect
import ExplicitApi.Proofs.Run.History
import ExplicitApi.Proofs.Run.Listing

/-!
How far a run over a directory reaches. Main statement: it changes only files in the directory with
a selected extension, and those that links in it with such an extension lead to.
-/
namespace ExplicitApi

namespace Job

variable {j : Job} {options : Options} {t : FileTree} {root p : Path} {top loc : Location}
  {files : List Path}

section Directory

variable (htop : t.locate root = .ok top) (hdirectory : t.lookup top = some .directory)
include htop hdirectory

/-- The files of a directory are among those that a walk of it comes upon. -/
theorem exists_reaches_of_mem_files (h : j.files options t [root] = .ok files) (hp : p ∈ files) :
    ∃ names, t.Reaches top names ∧ names ≠ [] ∧ p = root.descend names ∧
      j.selection.hasExtension p = true := by
  obtain ⟨s, found, hs, hgathers, hfiles, -⟩ := exists_gathers_of_files h
  obtain ⟨path, hpath, inside, hinside, hpInside⟩ := hgathers.from_paths p (hfiles.subset hp)
  rw [List.mem_singleton.1 hpath, filesOf_of_directory htop hdirectory] at hinside
  obtain ⟨names, hnames, rfl, hfile, hadmits, -⟩ :=
    (Selection.mem_filesUnder_iff htop hdirectory hinside).1 hpInside
  refine ⟨names, hnames, Selection.ne_nil_of_isFile_descend htop hdirectory hfile, rfl, ?_⟩
  rw [Selection.hasExtension_iff, ← extensions_selectionFor hs]
  exact hadmits.extension

/-- Without a limit, all files of a directory are listed. -/
theorem exists_files_of_filesUnder {s : Selection} (hs : j.selectionFor options = .ok s)
    (hmax : options.maxFiles = none) (h : s.filesUnder t root = .ok files) :
    ∃ listed, j.files options t [root] = .ok listed ∧ ∀ p, p ∈ listed ↔ p ∈ files := by
  refine ⟨(PathSet.addAll ∅ files).toList, ?_, fun p => ?_⟩
  · rw [files_eq hs hmax, List.foldlM_cons, filesOf_of_directory htop hdirectory, h]
    rfl
  · obtain ⟨found, hkeyed, rfl⟩ := Selection.exists_isKeyed_of_filesUnder h
    exact PathSet.mem_addAll_empty_iff fun q hq r hr hsame =>
      PathSet.eq_of_components_eq hkeyed hq hr hsame

/-- What a walk comes upon is found where it lies, unless it is a link. -/
theorem location_of_reaches {names : List (List Char)} (hnames : t.Reaches top names)
    (hne : names ≠ []) (hloc : t.locate (root.descend names) = .ok loc) :
    loc = top ++ names ∨ ∃ target, t.lookup (top ++ names) = some (.link target) := by
  have hfound : t.lookup (top ++ names) ≠ none := by
    refine (FileTree.reaches_iff ?_).1 hnames
    rw [hdirectory]
    exact Option.some_ne_none _
  obtain ⟨e, he⟩ := Option.ne_none_iff_exists'.1 hfound
  by_cases hlink : ∃ target, e = .link target
  · obtain ⟨target, rfl⟩ := hlink
    exact .inr ⟨target, he⟩
  · have hhere := FileTree.locate_descend_of_lookup htop he (not_exists.1 hlink) hne
    exact .inl (Except.ok.inj (hloc.symm.trans hhere))

end Directory

end Job

namespace Runner

variable {r r' : Runner} {options : Job.Options} {useCache : Bool} {now : Time.Instant}
  {t t' : FileTree} {root : Path} {top loc : Location} {report : Report}

/--
A run over a directory changes what lies in it or what a link in it leads to, and by selected names
only.
-/
theorem run_confined (h : r.run options useCache now t [root] = .ok (report, r', t'))
    (htop : t.locate root = .ok top) (hdirectory : t.lookup top = some .directory)
    (hchanged : t'.lookup loc ≠ t.lookup loc) :
    ∃ names, t.Reaches top names ∧ r.job.selection.hasExtension (root.descend names) = true ∧
      t.locate (root.descend names) = .ok loc ∧
      (loc = top ++ names ∨ ∃ target, t.lookup (top ++ names) = some (.link target)) := by
  have hvisited : ∃ files visited, r.job.files options t [root] = .ok files ∧
      visited ⊆ files ∧ t' = (r.job.visitAll options now t visited).2 := by
    rcases run_cases h with ⟨-, files, hfiles, rfl⟩ | ⟨c, files, -, hfiles, rfl, -⟩
    · exact ⟨files, files, hfiles, List.Subset.refl _, rfl⟩
    · exact ⟨files, unknown c t files, hfiles, List.filter_subset_self _, rfl⟩
  obtain ⟨files, visited, hfiles, hsubset, rfl⟩ := hvisited
  have hreached : ∃ p ∈ visited, t.locate p = .ok loc := by
    by_contra hnone
    push Not at hnone
    exact hchanged (Job.lookup_visitAll r.job options now t hnone)
  obtain ⟨p, hp, hloc⟩ := hreached
  obtain ⟨names, hnames, hne, rfl, hextension⟩ :=
    Job.exists_reaches_of_mem_files htop hdirectory hfiles (hsubset hp)
  exact ⟨names, hnames, hextension, hloc,
    Job.location_of_reaches htop hdirectory hnames hne hloc⟩

def strayTree : FileTree :=
  ((FileTree.empty.put ["notes.txt".toList] (.file "class A".toUTF8 ⟨1, 0⟩)).put
    ["src".toList] .directory).put ["src".toList, "L.kt".toList] (.link "../notes.txt")

theorem lookup_strayTree :
    strayTree.lookup ["notes.txt".toList] = some (.file "class A".toUTF8 ⟨1, 0⟩) ∧
      strayTree.lookup ["src".toList] = some .directory ∧
      strayTree.lookup ["src".toList, "L.kt".toList] = some (.link "../notes.txt") :=
  ⟨rfl, rfl, rfl⟩

theorem locate_strayTree :
    strayTree.locate ⟨"src"⟩ = .ok ["src".toList] ∧
      strayTree.locate ⟨"src/L.kt"⟩ = .ok ["notes.txt".toList] := by
  obtain ⟨hnotes, hdirectory, hlink⟩ := lookup_strayTree
  have htarget : Path.pieces "../notes.txt".toList = [['.', '.'], "notes.txt".toList] := by decide
  refine ⟨?_, ?_⟩
  · exact FileTree.locate_of_named (by decide) hdirectory FileTree.directory_ne_link (by decide)
  · refine FileTree.locate_of_link (by decide : _ = (_, ["src".toList] ++ ["L.kt".toList])) hlink ?_
    rw [if_neg (by decide), htarget, FileTree.follow_cons_parent]
    exact FileTree.follow_of_lookup hnotes FileTree.file_ne_link

theorem run_strayTree (now : Time.Instant) :
    ∃ report t' modified,
      Runner.run ⟨Job.sourceJob, none⟩ { noIgnore := true } false now strayTree [⟨"src"⟩] =
        .ok (report, ⟨Job.sourceJob, none⟩, t') ∧
      t'.lookup ["notes.txt".toList] = some (.file "public class A".toUTF8 modified) := by
  obtain ⟨hnotes, hdirectory, hlink⟩ := lookup_strayTree
  obtain ⟨htop, hloc⟩ := locate_strayTree
  have hselection : Job.sourceJob.selectionFor { noIgnore := true } =
      .ok (Selection.byExtension [".kt"]) := rfl
  have hfile : strayTree.isFile ⟨"src/L.kt"⟩ = true := by
    rw [FileTree.isFile, FileTree.entry_eq_ok_iff.2 ⟨_, hloc, hnotes⟩]
  cases hinside : (Selection.byExtension [".kt"]).filesUnder strayTree ⟨"src"⟩ with
  | error e =>
    obtain ⟨names, -, -, -, hmeets⟩ :=
      (Selection.filesUnder_eq_error_iff htop hdirectory _).1 ⟨e, hinside⟩
    exact absurd hmeets Selection.not_meetsIllegible_byExtension
  | ok files =>
    have hreaches : strayTree.Reaches ["src".toList] ["L.kt".toList] :=
      FileTree.reaches_of_lookup hlink
    have hmem : ⟨"src/L.kt"⟩ ∈ files :=
      (Selection.mem_filesUnder_iff htop hdirectory hinside).2 ⟨["L.kt".toList], hreaches, rfl,
        hfile, Selection.admits_byExtension_iff.2 (by decide), Selection.spares_byExtension⟩
    obtain ⟨listed, hlisted, hiff⟩ :=
      Job.exists_files_of_filesUnder htop hdirectory hselection rfl hinside
    have htext : strayTree.LeadToText listed ["notes.txt".toList] "class A" :=
      ⟨⟨_, (hiff _).2 hmem, hloc⟩, _, _, hnotes, fromUTF8?_toUTF8 _⟩
    have hqualified : (qualify Job.sourceJob.config.rules "class A").text = "public class A" := by
      decide +kernel
    obtain ⟨modified, hafter⟩ :=
      Job.lookup_visitEach_of_leadToText Job.sourceJob (Report.start .write now) htext rfl
    rw [hqualified] at hafter
    have hrun : Runner.run ⟨Job.sourceJob, none⟩ { noIgnore := true } false now strayTree [⟨"src"⟩] =
        .ok ((Job.sourceJob.visitAll { noIgnore := true } now strayTree listed).1,
          ⟨Job.sourceJob, none⟩,
          (Job.sourceJob.visitAll { noIgnore := true } now strayTree listed).2) := by
      rw [Runner.run, Job.run, hlisted]
      rfl
    exact ⟨_, _, modified, hrun, hafter⟩

theorem run_confined_strayTree :
    ∃ report t', Runner.run ⟨Job.sourceJob, none⟩ { noIgnore := true } false
        .epoch strayTree [⟨"src"⟩] =
          .ok (report, ⟨Job.sourceJob, none⟩, t') ∧
      strayTree.locate ⟨"src"⟩ = .ok ["src".toList] ∧
      strayTree.lookup ["src".toList] = some .directory ∧
      t'.lookup ["notes.txt".toList] ≠ strayTree.lookup ["notes.txt".toList] ∧
      ∃ names, strayTree.Reaches ["src".toList] names ∧
        strayTree.locate (Path.descend ⟨"src"⟩ names) = .ok ["notes.txt".toList] := by
  obtain ⟨hnotes, hdirectory, -⟩ := lookup_strayTree
  obtain ⟨report, t', modified, hrun, hafter⟩ := run_strayTree .epoch
  have hchanged : t'.lookup ["notes.txt".toList] ≠ strayTree.lookup ["notes.txt".toList] := by
    rw [hafter, hnotes]
    intro heq
    injection heq with hentry
    injection hentry with hcontent
    have htext := congrArg String.fromUTF8? hcontent
    rw [fromUTF8?_toUTF8, fromUTF8?_toUTF8] at htext
    exact absurd htext (by decide)
  obtain ⟨names, hnames, -, hloc, -⟩ := run_confined hrun locate_strayTree.1 hdirectory hchanged
  exact ⟨report, t', hrun, locate_strayTree.1, hdirectory, hchanged, names, hnames, hloc⟩

/-- A run over a directory rewrites a file outside of it that has no selected extension. -/
theorem run_strays :
    Job.ofConfig {} = .ok Job.sourceJob ∧ strayTree.locate ⟨"src"⟩ = .ok ["src".toList] ∧
      strayTree.lookup ["notes.txt".toList] = some (.file "class A".toUTF8 ⟨1, 0⟩) ∧
      ∃ report t' modified, Runner.run ⟨Job.sourceJob, none⟩ { noIgnore := true } false
          .epoch strayTree [⟨"src"⟩] =
            .ok (report, ⟨Job.sourceJob, none⟩, t') ∧
        t'.lookup ["notes.txt".toList] = some (.file "public class A".toUTF8 modified) :=
  ⟨rfl, locate_strayTree.1, lookup_strayTree.1, run_strayTree _⟩

end Runner

end ExplicitApi
