import ExplicitApi.Command.Run
import ExplicitApi.Proofs.Run.Confinement
import ExplicitApi.Proofs.Run.Rehearsal
import Mathlib.Data.List.Perm.Subperm

/-!
The command that checks a directory. Main statement: it ends with 1 if and only if the fix that it
is for would change a file.
-/
namespace ExplicitApi

namespace Job

variable {j : Job} {options : Options} {t : FileTree} {root : Path} {files : List Path}

theorem exists_of_isDirectory (h : t.isDirectory root = true) :
    ∃ top, t.locate root = .ok top ∧ t.lookup top = some .directory := by
  unfold FileTree.isDirectory at h
  split at h
  · next hentry => exact FileTree.entry_eq_ok_iff.1 hentry
  · cases h

/-- A directory lists no more files than there are entries. -/
theorem length_files_le (hroot : t.isDirectory root = true)
    (h : j.files options t [root] = .ok files) : files.length ≤ t.entries.size := by
  obtain ⟨top, htop, hdirectory⟩ := exists_of_isDirectory hroot
  have hnodup : files.Nodup := (pairwise_files h).imp fun hlt heq => by simp [heq] at hlt
  have hsubset : files ⊆ t.entries.entries.map fun e => root.descend (e.1.drop top.length) := by
    intro p hp
    obtain ⟨names, hreaches, hne, rfl, -⟩ := exists_reaches_of_mem_files htop hdirectory h hp
    have hfound : t.lookup (top ++ names) ≠ none :=
      (FileTree.reaches_iff (by rw [hdirectory]; exact Option.some_ne_none _)).1 hreaches
    obtain ⟨e, he⟩ := Option.ne_none_iff_exists'.1 hfound
    have hmem := FileTree.mem_of_lookup (List.append_ne_nil_of_right_ne_nil top hne) he
    exact List.mem_map.2 ⟨_, hmem, by rw [List.drop_left]⟩
  have hle := (hnodup.subperm hsubset).length_le
  rwa [List.length_map] at hle

/-- The counter of changed files counts as far as there can be files. -/
theorem hasChanges_visitAll_dry_iff (j : Job) (options : Options) (now : Time.Instant)
    (t : FileTree) (hfew : files.length < UInt64.size) :
    (j.visitAll { options with mode := .dry, failFast := false } now t files).1.hasChanges = true ↔
      j.NeedsChange t files := by
  obtain ⟨n, hn⟩ : ∃ n, n = ((files.map (j.outcome .dry t)).filterMap Visit.change?).length :=
    ⟨_, rfl⟩
  have hlt : n < UInt64.size := by
    have hle := List.length_filterMap_le Visit.change? (files.map (j.outcome .dry t))
    rw [List.length_map, ← hn] at hle
    exact Nat.lt_of_le_of_lt hle hfew
  have hcount : (j.visitAll { options with mode := .dry, failFast := false } now t
      files).1.summary.filesModified = .ofNat n := by
    rw [report_visitAll j _ now (.inl rfl), hn]
    have hfold := filesModified_foldl_add (Report.start .dry now) (files.map (j.outcome .dry t))
    have hzero : (Report.start .dry now).summary.filesModified = 0 := rfl
    rwa [hzero, UInt64.zero_add] at hfold
  have hneeds : 0 < n ↔ j.NeedsChange t files := by
    rw [hn, List.length_pos_iff]
    exact changes_ne_nil_iff
  rw [← hneeds, Report.hasChanges, hcount, decide_eq_true_iff, UInt64.lt_iff_toNat_lt,
    UInt64.toNat_ofNat_of_lt' hlt]
  rfl

end Job

namespace Command

variable {t : FileTree} {config : Option Path} {c : Config} {job : Job} {files : List Path}

theorem tree_run_check (r : CheckRequest) (s : Setting) (config : Option Path) (t : FileTree) :
    (r.run s config t).tree = t := by
  unfold CheckRequest.run
  split
  · rfl
  · split
    · rfl
    · next report t' hreport =>
      obtain ⟨c, -, hreport⟩ := bind_eq_ok_iff.1 hreport
      obtain ⟨job, -, hreport⟩ := bind_eq_ok_iff.1 hreport
      obtain ⟨files, -, hreport⟩ := bind_eq_ok_iff.1 hreport
      have htree := Job.tree_visitAll_dry job r.options s.now t files
      injection hreport with hreport
      rw [← htree]
      exact (congrArg Prod.snd hreport).symm

theorem exit_run_check {r : CheckRequest} (s : Setting) (hroot : t.isDirectory r.directory = true)
    (hconfig : configFor t config = .ok c) (hjob : Job.ofConfig c = .ok job)
    (hfiles : job.files r.options t [r.directory] = .ok files) :
    (r.run s config t).exit = 1 ↔
      (job.visitAll r.options s.now t files).1.hasChanges = true := by
  have hreport : r.report s config t = .ok (job.visitAll r.options s.now t files) := by
    simp only [CheckRequest.report, hconfig, hjob, Job.run, hfiles, bind, Except.bind]
    rfl
  rw [CheckRequest.run, hroot, hreport]
  cases hchanges : (job.visitAll r.options s.now t files).1.hasChanges with
  | false => simp [hchanges]
  | true => simp [hchanges]

theorem tree_run_fix {f : FixRequest} {root : Path} (s : Setting)
    (hdirectory : f.directory = some root) (hcache : f.useCache = false) (hroot : t.isDirectory root = true)
    (hconfig : configFor t config = .ok c) (hjob : Job.ofConfig c = .ok job)
    (hfiles : job.files f.options t [root] = .ok files) :
    (f.run s config t).tree = (job.visitAll f.options s.now t files).2 := by
  have hrunner : f.runner config t = .ok ⟨job, none⟩ := by
    simp only [FixRequest.runner, hconfig, hcache, Runner.make, hjob, bind, Except.bind]
    rfl
  have hrun : Runner.run ⟨job, none⟩ f.options f.useCache s.now t [root] =
      .ok ((job.visitAll f.options s.now t files).1, ⟨job, none⟩,
        (job.visitAll f.options s.now t files).2) := by
    simp only [Runner.run, Job.run, hfiles, bind, Except.bind]
    rfl
  simp only [FixRequest.run, hdirectory, hroot, hrunner, hrun]
  rfl

/--
A dry run tells what a run that writes would report, and a check ends with 1 when that changes a
file.
-/
theorem rehearsal_exact :
    (∀ (j : Job) (options : Job.Options) (now now' : Time.Instant) (t : FileTree)
        (files : List Path),
      let rehearsed := j.visitAll { options with mode := .dry } now t files
      let done := j.visitAll { options with mode := .write } now' t files
      rehearsed.2 = t ∧
        (t.Apart files → t.AllowsWriting files →
          done.1 = rehearsed.1.inMode .write now' ∧ rehearsed.1 = done.1.inMode .dry now)) ∧
    ∀ (r : CheckRequest) (f : FixRequest) (s s' : Setting) (config : Option Path) (t : FileTree)
        (c : Config) (job : Job) (files : List Path),
      f.directory = some r.directory → f.useCache = false →
      f.options = { exclude := r.exclude, includes := r.includes } →
      t.entries.size < UInt64.size → t.isDirectory r.directory = true →
      configFor t config = .ok c → Job.ofConfig c = .ok job →
      job.files r.options t [r.directory] = .ok files → t.AllowsWriting files →
      ((r.run s config t).exit = 1 ↔ t.Changes (f.run s' config t).tree) ∧
        (r.run s config t).tree = t := by
  constructor
  · intro j options now now' t files rehearsed done
    refine ⟨Job.tree_visitAll_dry j options now t files, fun hapart hallows => ⟨?_, ?_⟩⟩
    · exact Job.report_visitAll_inMode j options .dry .write now now' hapart hallows
    · exact Job.report_visitAll_inMode j options .write .dry now' now hapart hallows
  · intro r f s s' config t c job files hdirectory hcache hoptions hsize hroot hconfig hjob hfiles
      hallows
    refine ⟨?_, tree_run_check r s config t⟩
    have hfew : files.length < UInt64.size :=
      Nat.lt_of_le_of_lt (Job.length_files_le hroot hfiles) hsize
    have hsame : job.files f.options t [r.directory] = .ok files := by
      rw [hoptions]
      exact hfiles
    rw [exit_run_check s hroot hconfig hjob hfiles,
      tree_run_fix s' hdirectory hcache hroot hconfig hjob hsame, hoptions]
    exact (Job.hasChanges_visitAll_dry_iff job r.options s.now t hfew).trans
      (Job.changes_visitEach_iff job _ hallows).symm

section Source

open Selection (sourceTree)

theorem lookup_sourceTree (loc : Location) :
    sourceTree.lookup loc = if loc = ["src".toList, "A.kt".toList] then
        some (.file "class A".toUTF8 ⟨1, 0⟩)
      else if loc = ["src".toList] then some .directory else FileTree.empty.lookup loc := by
  rw [sourceTree, FileTree.lookup_put (by decide), FileTree.lookup_put (by decide)]

theorem eq_of_read_sourceTree {path : Path} {content : ByteArray}
    (h : sourceTree.read path = .ok content) : content = "class A".toUTF8 := by
  obtain ⟨modified, hentry⟩ := FileTree.read_eq_ok_iff.1 h
  obtain ⟨loc, -, hlookup⟩ := FileTree.entry_eq_ok_iff.1 hentry
  rw [lookup_sourceTree] at hlookup
  split at hlookup
  · cases hlookup
    rfl
  · split at hlookup
    · cases hlookup
    · cases loc <;> cases hlookup

theorem passesNoLink_sourceTree (names : List (List Char)) : sourceTree.PassesNoLink [] names := by
  intro front _ target hlookup
  rw [lookup_sourceTree] at hlookup
  split at hlookup
  · cases hlookup
  · split at hlookup
    · cases hlookup
    · cases front <;> cases hlookup

/-- Names that lead to nothing are no path. -/
theorem hasPath_sourceTree {path : Path} {names : List (List Char)}
    (hcomponents : path.components = names.map .name) (hnone : sourceTree.lookup names = none) :
    sourceTree.hasPath path = false := by
  rw [FileTree.hasPath]
  cases hentry : sourceTree.entry path with
  | error e => rfl
  | ok e =>
    obtain ⟨loc, hloc, hlookup⟩ := FileTree.entry_eq_ok_iff.1 hentry
    have hbase : sourceTree.StartsAt ⟨""⟩ [] := .inl ⟨rfl, rfl⟩
    have heq := FileTree.location_of_passesNoLink hbase hcomponents (passesNoLink_sourceTree names)
      hloc
    rw [heq, List.nil_append, hnone] at hlookup
    cases hlookup

theorem configFor_sourceTree : configFor sourceTree none = .ok {} := by
  have hnone : Config.usualFile? sourceTree = none := by
    refine List.find?_eq_none.2 fun p hp => ?_
    obtain ⟨name, hname, rfl⟩ := List.mem_map.1 hp
    have hplain : Path.components ⟨name⟩ = [name.toList].map .name ∧
        sourceTree.lookup [name.toList] = none := by
      revert name
      decide
    rw [hasPath_sourceTree hplain.1 hplain.2]
    exact Bool.false_ne_true
  rw [configFor, Config.ofTree, hnone]

theorem patternsAt_sourceTree :
    sourceTree.patternsAt ((⟨"src"⟩ : Path).join ".visibilityignore") = [] := by
  have hpath : sourceTree.hasPath ((⟨"src"⟩ : Path).join ".visibilityignore") = false :=
    hasPath_sourceTree (show _ = ["src".toList, ".visibilityignore".toList].map Path.Component.name
      by decide) rfl
  unfold FileTree.patternsAt
  cases hread : sourceTree.readText ((⟨"src"⟩ : Path).join ".visibilityignore") with
  | error cause => rfl
  | ok text =>
    obtain ⟨loc, content, modified, hloc, hlookup, -⟩ :=
      FileTree.readText_eq_ok_iff_lookup.1 hread
    have hentry := FileTree.entry_eq_ok_iff.2 ⟨loc, hloc, hlookup⟩
    rw [FileTree.hasPath, hentry] at hpath
    cases hpath

/-- The walk finds the file, which no ignore file excludes. -/
theorem files_sourceTree (htop : sourceTree.locate ⟨"src"⟩ = .ok ["src".toList])
    (hloc : sourceTree.locate ⟨"src/A.kt"⟩ = .ok ["src".toList, "A.kt".toList]) :
    ∃ files, Job.sourceJob.files { mode := .dry } sourceTree [⟨"src"⟩] = .ok files ∧
      ⟨"src/A.kt"⟩ ∈ files := by
  have hdirectory : sourceTree.lookup ["src".toList] = some .directory := rfl
  have hfile : sourceTree.lookup (["src".toList] ++ ["A.kt".toList]) =
      some (.file "class A".toUTF8 ⟨1, 0⟩) := rfl
  cases hinside : Job.sourceJob.selection.filesUnder sourceTree ⟨"src"⟩ with
  | error e =>
    obtain ⟨names, -, -, -, name, -, depth, -, content, hread, hnone⟩ :=
      (Selection.filesUnder_eq_error_iff htop hdirectory _).1 ⟨e, hinside⟩
    rw [eq_of_read_sourceTree hread, fromUTF8?_toUTF8] at hnone
    cases hnone
  | ok found =>
    obtain ⟨files, hfiles, hiff⟩ :
        ∃ files, Job.sourceJob.files { mode := .dry } sourceTree [⟨"src"⟩] = .ok files ∧
          ∀ p, p ∈ files ↔ p ∈ found :=
      Job.exists_files_of_filesUnder htop hdirectory rfl rfl hinside
    have hisFile : sourceTree.isFile ⟨"src/A.kt"⟩ = true := by
      rw [FileTree.isFile, FileTree.entry_eq_ok_iff.2 ⟨_, hloc, hfile⟩]
    have hspares : Job.sourceJob.selection.Spares sourceTree ⟨"src"⟩ ["A.kt".toList] := by
      rintro name hname
      cases hname
      have hlines : Selection.ignoreLines sourceTree ".visibilityignore" ⟨"src"⟩
          ["A.kt".toList] = [] := by
        have hnone : Selection.linesAt sourceTree ".visibilityignore" ⟨"src"⟩ ["A.kt".toList] 0 =
            [] := congrArg (List.map _) patternsAt_sourceTree
        rw [Selection.ignoreLines, List.length_singleton, List.range_one, List.flatMap_singleton,
          hnone]
      rw [hlines]
      intro line hline
      cases hline
    exact ⟨files, hfiles, (hiff _).2 ((Selection.mem_filesUnder_iff htop hdirectory hinside).2
      ⟨["A.kt".toList], FileTree.reaches_of_lookup hfile, rfl, hisFile,
        Selection.selectsByName_iff.1 (by decide), hspares⟩)⟩

theorem rehearsal_exact_sourceTree :
    ∃ files, sourceTree.entries.size < UInt64.size ∧ sourceTree.isDirectory ⟨"src"⟩ = true ∧
      configFor sourceTree none = .ok {} ∧ Job.ofConfig {} = .ok Job.sourceJob ∧
      Job.sourceJob.files { mode := .dry } sourceTree [⟨"src"⟩] = .ok files ∧
      (CheckRequest.run ⟨⟨"src"⟩, .human, [], []⟩ ⟨.epoch, false⟩ none
        sourceTree).exit = 1 ∧
      sourceTree.Changes (FixRequest.run ⟨some ⟨"src"⟩, {}, .human, false, false, none, true⟩
        ⟨.epoch, false⟩ none sourceTree).tree := by
  have hlookup : sourceTree.lookup ["src".toList, "A.kt".toList] =
      some (.file "class A".toUTF8 ⟨1, 0⟩) := rfl
  have hdirectory : sourceTree.lookup ["src".toList] = some .directory := rfl
  have htop : sourceTree.locate ⟨"src"⟩ = .ok ["src".toList] :=
    FileTree.locate_of_lookup (.inl ⟨rfl, rfl⟩) (by decide) hdirectory
      FileTree.directory_ne_link (by rw [FileTree.endsVoid_iff]; decide)
  have hroot : sourceTree.isDirectory ⟨"src"⟩ = true := by
    rw [FileTree.isDirectory, FileTree.entry_eq_ok_iff.2 ⟨_, htop, hdirectory⟩]
  have hloc := Job.locate_sourceTree_plain.1
  obtain ⟨files, hfiles, hmem⟩ := files_sourceTree htop hloc
  have hallows : sourceTree.AllowsWriting files := fun _ _ _ => rfl
  have hneeds : Job.sourceJob.NeedsChange sourceTree files :=
    ⟨_, hmem, "class A", FileTree.readText_eq_ok_iff_lookup.2
      ⟨_, _, _, hloc, hlookup, fromUTF8?_toUTF8 _⟩, by decide +kernel⟩
  have hchanges : sourceTree.Changes (FixRequest.run ⟨some ⟨"src"⟩, {}, .human, false, false, none,
      true⟩ ⟨.epoch, false⟩ none sourceTree).tree := by
    have hjob : Job.ofConfig {} = .ok Job.sourceJob := rfl
    have hsame : Job.sourceJob.files {} sourceTree [⟨"src"⟩] = .ok files := hfiles
    rw [tree_run_fix (f := ⟨some ⟨"src"⟩, {}, .human, false, false, none, true⟩) _ rfl rfl hroot
      configFor_sourceTree hjob hsame]
    exact (Job.changes_visitEach_iff Job.sourceJob _ hallows).2 hneeds
  have hsize : sourceTree.entries.size < UInt64.size := by decide
  obtain ⟨hexit, -⟩ := rehearsal_exact.2 ⟨⟨"src"⟩, .human, [], []⟩
    ⟨some ⟨"src"⟩, {}, .human, false, false, none, true⟩ ⟨.epoch, false⟩
    ⟨.epoch, false⟩ none sourceTree {} Job.sourceJob files rfl rfl rfl hsize
    hroot configFor_sourceTree rfl hfiles hallows
  exact ⟨files, hsize, hroot, configFor_sourceTree, rfl, hfiles, hexit.2 hchanges, hchanges⟩

end Source

end Command

end ExplicitApi
