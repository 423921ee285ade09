import ExplicitApi.Proofs.Qualify.Insertions
import ExplicitApi.Proofs.Run.Accounting
import ExplicitApi.Report.Format

/-!
The annotations of a run, line by line. Main statement: each insertion that is listed and each failure
has one, which is a line of its own just when there is no line feed in the path that it names.
-/
namespace ExplicitApi

namespace Report

section Lines

def feeds (s : String) : Nat := s.toList.count '\n'

/-- Whether a text is made of some lines, each of them ended by a line feed. -/
def HasLines (text : String) (lines : List String) : Prop :=
  text.toList.splitOn '\n' = lines.map String.toList ++ [[]]

theorem feeds_eq_zero_iff {s : String} : feeds s = 0 ↔ '\n' ∉ s.toList := List.count_eq_zero

@[simp] theorem feeds_append (a b : String) : feeds (a ++ b) = feeds a + feeds b := by
  simp [feeds]

@[simp] theorem feeds_toString (n : Nat) : feeds (toString n) = 0 := by
  rw [feeds_eq_zero_iff]
  exact Text.notMem_toString rfl n

theorem toList_unlines (lines : List String) :
    (unlines lines).toList = lines.flatMap fun line => line.toList ++ ['\n'] := by
  simp [unlines, List.flatMap_map]

/-- Each line has a line feed behind it, besides those in the line. -/
theorem feeds_unlines (lines : List String) :
    feeds (unlines lines) = lines.length + (lines.map feeds).sum := by
  rw [feeds, toList_unlines]
  induction lines with
  | nil => rfl
  | cons line lines ih =>
    rw [List.flatMap_cons, List.count_append, ih, List.map_cons, List.sum_cons, List.length_cons,
      feeds, List.count_append, List.count_singleton_self]
    omega

/-- Behind the last line feed there is one more piece, which is empty. -/
theorem unlines_eq_intercalate (lines : List String) :
    (unlines lines).toList = ['\n'].intercalate (lines.map String.toList ++ [[]]) := by
  rw [toList_unlines]
  induction lines with
  | nil => rfl
  | cons line lines ih =>
    rw [List.flatMap_cons, ih]
    cases lines <;> simp

theorem hasLines_unlines_iff {lines : List String} :
    HasLines (unlines lines) lines ↔ ∀ line ∈ lines, feeds line = 0 := by
  simp only [feeds_eq_zero_iff]
  constructor
  · intro h line hline
    refine Text.notMem_of_mem_splitOn '\n' (unlines lines).toList _ ?_
    rw [h]
    exact List.mem_append_left _ (List.mem_map_of_mem hline)
  · intro h
    rw [HasLines, unlines_eq_intercalate]
    refine List.splitOn_intercalate '\n' (fun line hline => ?_) (by simp)
    rcases List.mem_append.1 hline with hline | hline
    · obtain ⟨l, hl, rfl⟩ := List.mem_map.1 hline
      exact h l hl
    · rw [List.mem_singleton.1 hline]
      exact List.not_mem_nil

end Lines

section Annotations

variable {style : Style} {r : Report}

/-- The insertions that are annotated, each with the file it is in. -/
def findings (style : Style) (r : Report) : List (Change × Insertion) :=
  (listed style r).flatMap fun o => o.insertions.map (o, ·)

def notices (style : Style) (r : Report) : List String :=
  (findings style r).map fun finding => noticeLine finding.1 finding.2

def errors (r : Report) : List String := r.failures.map errorLine

def named (style : Style) (r : Report) : List Path :=
  (findings style r).map (·.1.path) ++ r.failures.map Failure.path

theorem annotationLines_eq (style : Style) (r : Report) :
    annotationLines style r = notices style r ++ errors r := by
  simp [annotationLines, notices, errors, findings, List.map_flatMap, Function.comp_def]

theorem listed_subset (style : Style) (r : Report) : listed style r ⊆ r.files := by
  unfold listed
  cases style.maxFiles with
  | none => exact List.Subset.refl _
  | some n => exact List.take_subset n _

theorem mem_findings {finding : Change × Insertion} (h : finding ∈ findings style r) :
    finding.1 ∈ r.files ∧ finding.2 ∈ finding.1.insertions := by
  obtain ⟨o, ho, hfinding⟩ := List.mem_flatMap.1 h
  obtain ⟨i, hi, rfl⟩ := List.mem_map.1 hfinding
  exact ⟨listed_subset style r ho, hi⟩

theorem feeds_noticeLine (o : Change) (i : Insertion) :
    feeds (noticeLine o i) = feeds o.path.spelling + feeds i.keyword + feeds i.name := by
  have hrule : feeds i.kind.ruleName = 0 := by cases i.kind <;> decide +kernel
  have hverb : feeds (if o.written then "Inserted" else "Missing") = 0 := by
    cases o.written <;> decide +kernel
  have htexts : feeds "::notice file=" = 0 ∧ feeds ",line=" = 0 ∧ feeds ",title=" = 0 ∧
      feeds "::" = 0 ∧ feeds " public qualifier on " = 0 ∧ feeds " " = 0 := by decide +kernel
  unfold noticeLine
  simp only [feeds_append, feeds_toString, hrule, hverb, htexts, Nat.zero_add, Nat.add_zero]

theorem feeds_errorLine (f : Failure) :
    feeds (errorLine f) = feeds f.path.spelling + feeds f.message := by
  have htexts : feeds "::error file=" = 0 ∧ feeds ",title=processing::" = 0 := by decide +kernel
  unfold errorLine
  simp only [feeds_append, htexts, Nat.zero_add, Nat.add_zero]

/-- Whether no text of a report has a line feed, but perhaps a path. -/
structure IsPlain (r : Report) : Prop where
  insertions : ∀ o ∈ r.files, ∀ i ∈ o.insertions, feeds i.keyword = 0 ∧ feeds i.name = 0
  messages : ∀ f ∈ r.failures, feeds f.message = 0

/-- An annotation has the line feeds of the path that it names. -/
theorem IsPlain.map_feeds (h : r.IsPlain) (style : Style) :
    (notices style r ++ errors r).map feeds =
      (named style r).map fun p => feeds p.spelling := by
  have hnotices : ∀ finding ∈ findings style r,
      feeds (noticeLine finding.1 finding.2) = feeds finding.1.path.spelling := by
    intro finding hfinding
    obtain ⟨hfile, hi⟩ := mem_findings hfinding
    obtain ⟨hkeyword, hname⟩ := h.insertions _ hfile _ hi
    rw [feeds_noticeLine, hkeyword, hname]
    rfl
  have herrors : ∀ f ∈ r.failures, feeds (errorLine f) = feeds f.path.spelling := by
    intro f hf
    rw [feeds_errorLine, h.messages f hf]
    rfl
  simp only [notices, errors, named, List.map_append, List.map_map, Function.comp_def]
  rw [List.map_congr_left hnotices, List.map_congr_left herrors]

/--
What holds of the annotations in a report: notices and then errors, which are its lines unless a
path breaks one.
-/
structure IsAnnotated (style : Style) (r : Report) (files : List Path) : Prop where
  format_eq : (r.format style .github).toList =
    (notices style r ++ errors r).flatMap fun line => line.toList ++ ['\n']
  notices_begin : ∀ line ∈ notices style r, "::notice file=".toList <+: line.toList
  errors_begin : ∀ line ∈ errors r, "::error file=".toList <+: line.toList
  hasLines_iff : HasLines (r.format style .github) (notices style r ++ errors r) ↔
    ∀ p ∈ named style r, '\n' ∉ p.spelling.toList
  feeds_eq : feeds (r.format style .github) = (findings style r).length + r.failures.length +
    ((named style r).map fun p => feeds p.spelling).sum
  named_subset : named style r ⊆ files

theorem IsPlain.isAnnotated (h : r.IsPlain) {files : List Path} (style : Style)
    (hfiles : ∀ o ∈ r.files, o.path ∈ files) (hfailures : ∀ f ∈ r.failures, f.path ∈ files) :
    IsAnnotated style r files where
  format_eq := by rw [format, annotationLines_eq, toList_unlines]
  notices_begin := by
    intro line hline
    obtain ⟨finding, -, rfl⟩ := List.mem_map.1 hline
    unfold noticeLine
    simp only [String.toList_append, List.append_assoc]
    exact List.prefix_append _ _
  errors_begin := by
    intro line hline
    obtain ⟨f, -, rfl⟩ := List.mem_map.1 hline
    unfold errorLine
    simp only [String.toList_append, List.append_assoc]
    exact List.prefix_append _ _
  hasLines_iff := by
    have hformat : r.format style .github = unlines (notices style r ++ errors r) := by
      rw [format, annotationLines_eq]
    have hfeeds : (∀ line ∈ notices style r ++ errors r, feeds line = 0) ↔
        ∀ p ∈ named style r, feeds p.spelling = 0 := by
      rw [← List.forall_mem_map (P := (· = 0)), h.map_feeds style, List.forall_mem_map]
    rw [hformat, hasLines_unlines_iff, hfeeds]
    simp only [feeds_eq_zero_iff]
  feeds_eq := by
    rw [format, annotationLines_eq, feeds_unlines, h.map_feeds style, List.length_append]
    simp only [notices, errors, List.length_map]
  named_subset := by
    intro p hp
    rcases List.mem_append.1 hp with hp | hp
    · obtain ⟨finding, hfinding, rfl⟩ := List.mem_map.1 hp
      exact hfiles _ (mem_findings hfinding).1
    · obtain ⟨f, hf, rfl⟩ := List.mem_map.1 hp
      exact hfailures f hf

end Annotations

end Report

theorem feeds_message (cause : ProcessingError) : Report.feeds cause.message = 0 := by
  have hsystem : ∀ e : IoError, Report.feeds e.message = 0 := by
    intro e
    cases e <;> decide +kernel
  have hread : Report.feeds "Failed to read file: " = 0 := by decide +kernel
  have hwrite : Report.feeds "Failed to write file: " = 0 := by decide +kernel
  cases cause with
  | unreadable e =>
    unfold ProcessingError.message
    rw [Report.feeds_append, hread, hsystem]
  | unwritable e =>
    unfold ProcessingError.message
    rw [Report.feeds_append, hwrite, hsystem]

/-- A keyword phrase and a name stand in one line. -/
theorem feeds_of_mem_insertions {rules : Rules} {text : String} {i : Insertion}
    (hi : i ∈ (qualify rules text).insertions) :
    Report.feeds i.keyword = 0 ∧ Report.feeds i.name = 0 := by
  obtain ⟨kind, hi⟩ := Qualify.mem_insertions_iff.1 hi
  obtain ⟨hkind, n, line, hline, hfound⟩ := Qualify.mem_insertionsOf_iff.1 hi
  have hfeed : '\n' ∉ line := Text.notMem_of_mem_splitOn '\n' _ line (List.mem_of_getElem? hline)
  obtain ⟨indentation, gap, rest, hwhole, -, -, -, -, -, -, hname⟩ :=
    Qualify.describes_of_lineInsertion? hfeed hkind hfound
  rw [Report.feeds_eq_zero_iff, Report.feeds_eq_zero_iff]
  refine ⟨fun hkeyword => hfeed ?_, fun hmem => hfeed ?_⟩
  · rw [hwhole]
    simp [hkeyword]
  · rw [hname] at hmem
    rw [hwhole]
    simp [(List.takeWhile_sublist _).subset hmem]

namespace Job

variable {j : Job} {options : Options} {now : Time.Instant} {files : List Path} {report : Report}
  {edits : List Report.Edit}

/-- Whatever a run reports, only a path can bring in a line feed. -/
theorem IsMadeBy.isAnnotated (h : IsMadeBy j options now files report edits)
    (style : Style) : Report.IsAnnotated style report files := by
  have hplain : report.IsPlain := by
    refine ⟨fun o ho i hi => ?_, fun f hf => ?_⟩
    · obtain ⟨path, -, hyields⟩ := h.exists_of_mem_files ho
      cases hyields with
      | modified text written _ => exact feeds_of_mem_insertions hi
    · obtain ⟨path, -, hyields⟩ := h.exists_of_mem_failures hf
      cases hyields with
      | failed cause => exact feeds_message cause
  refine hplain.isAnnotated style (fun o ho => ?_) fun f hf => ?_
  · obtain ⟨path, hpath, hyields⟩ := h.exists_of_mem_files ho
    cases hyields
    exact hpath
  · obtain ⟨path, hpath, hyields⟩ := h.exists_of_mem_failures hf
    cases hyields
    exact hpath

/-- A dry run over a file that holds one declaration. -/
theorem exists_run_dry {t : FileTree} {path : Path} {loc : Location}
    (hselected : sourceJob.selection.withoutIgnoreFiles.selectsFile t path = .ok true)
    (hloc : t.locate path = .ok loc)
    (hlookup : t.lookup loc = some (.file "class A".toUTF8 ⟨1, 0⟩)) :
    ∃ report, Runner.run ⟨sourceJob, none⟩ { mode := .dry, noIgnore := true } false .epoch t [path] =
        .ok (report, ⟨sourceJob, none⟩, t) ∧
      report.failures = [] ∧ Report.findings {} report =
        [(⟨path, [⟨.type, 1, "class", "A"⟩], false⟩, ⟨.type, 1, "class", "A"⟩)] := by
  have hfile : t.isFile path = true := by
    rw [FileTree.isFile, FileTree.entry_eq_ok_iff.2 ⟨_, hloc, hlookup⟩]
  have hfiles : sourceJob.files { mode := .dry, noIgnore := true } t [path] = .ok [path] := by
    refine files_of_isFile rfl rfl fun p hp => ?_
    rw [List.mem_singleton.1 hp]
    exact ⟨hfile, hselected⟩
  have hfound : (qualify sourceJob.config.rules "class A").insertions =
      [⟨.type, 1, "class", "A"⟩] := by decide +kernel
  have hwants : t.Wants sourceJob.config.rules path loc "class A" :=
    ⟨hloc, ⟨_, _, hlookup, fromUTF8?_toUTF8 _⟩, by rw [hfound]; exact List.cons_ne_nil _ _⟩
  have houtcome := outcome_of_visit (visit_dry hwants.readText hwants.insertions)
  have hindependent : Independent .dry t [path] := .inl rfl
  have hreport :=
    report_visitAll sourceJob { mode := .dry, noIgnore := true } .epoch hindependent
  rw [List.map_singleton, houtcome, hfound] at hreport
  refine ⟨(sourceJob.visitAll { mode := .dry, noIgnore := true } .epoch t [path]).1, ?_, ?_, ?_⟩
  · have htree := tree_visitAll_dry sourceJob { noIgnore := true } .epoch t [path]
    rw [Runner.run_eq, hfiles]
    exact congrArg (fun t' => Except.ok (_, _, t')) htree
  · rw [hreport]
    exact List.mergeSort_nil
  · have hfiles : (sourceJob.visitAll { mode := .dry, noIgnore := true } .epoch t [path]).1.files =
        [⟨path, [⟨.type, 1, "class", "A"⟩], false⟩] := by
      rw [hreport]
      exact List.mergeSort_singleton _
    simp [Report.findings, Report.listed, hfiles]

end Job

/--
Each insertion that a run lists has a notice and each failure an error; only a path can break their
lines.
-/
theorem Report.annotations_exact (r : Runner) (options : Job.Options) (now : Time.Instant)
    (t : FileTree) (style : Style) :
    (∀ files, IsAnnotated style (r.job.visitAll options now t files).1 files) ∧
    ∀ (useCache : Bool) (paths : List Path) (report : Report) (r' : Runner) (t' : FileTree),
      r.run options useCache now t paths = .ok (report, r', t') →
      ∃ files, r.job.files options t paths = .ok files ∧ IsAnnotated style report files := by
  refine ⟨fun files => ?_, fun useCache paths report r' t' h => ?_⟩
  · obtain ⟨edits, hmade⟩ := r.job.exists_isMadeBy_visitAll options now t files
    exact hmade.isAnnotated style
  · obtain ⟨files, edits, hfiles, hmade⟩ := Runner.exists_isMadeBy_run h
    exact ⟨files, hfiles, hmade.isAnnotated style⟩

theorem Report.annotations_exact_sourceTree :
    ∃ report, Runner.run ⟨Job.sourceJob, none⟩ { mode := .dry, noIgnore := true } false .epoch
        Selection.sourceTree [⟨"src/A.kt"⟩] =
          .ok (report, ⟨Job.sourceJob, none⟩, Selection.sourceTree) ∧
      HasLines (report.format {} .github) ["::notice file=src/A.kt,line=1," ++
        "title=type_declarations::Missing public qualifier on class A"] := by
  have hselected : Job.sourceJob.selection.withoutIgnoreFiles.selectsFile Selection.sourceTree
      ⟨"src/A.kt"⟩ = .ok true := rfl
  obtain ⟨report, hrun, hfailures, hfindings⟩ :=
    Job.exists_run_dry hselected Job.locate_sourceTree_plain.1 rfl
  obtain ⟨files, -, hannotated⟩ := (annotations_exact _ _ _ _ {}).2 _ _ _ _ _ hrun
  have hplain : ∀ p ∈ named {} report, '\n' ∉ p.spelling.toList := by
    simp only [named, hfindings, hfailures]
    decide +kernel
  refine ⟨report, hrun, ?_⟩
  have hlines := hannotated.hasLines_iff.2 hplain
  simp only [notices, errors, hfindings, hfailures] at hlines
  have hnotice : noticeLine ⟨⟨"src/A.kt"⟩, [⟨.type, 1, "class", "A"⟩], false⟩
      ⟨.type, 1, "class", "A"⟩ = "::notice file=src/A.kt,line=1," ++
        "title=type_declarations::Missing public qualifier on class A" := by decide +kernel
  rwa [← hnotice]

def Report.feedTree : FileTree :=
  FileTree.empty.put ["\n::error::A.kt".toList] (.file "class A".toUTF8 ⟨1, 0⟩)

/-- One insertion and no failure, but an error behind the notice. -/
theorem Report.annotations_broken_feedTree :
    ∃ report, Runner.run ⟨Job.sourceJob, none⟩ { mode := .dry, noIgnore := true } false .epoch
        feedTree [⟨"\n::error::A.kt"⟩] = .ok (report, ⟨Job.sourceJob, none⟩, feedTree) ∧
      (findings {} report).length = 1 ∧ report.failures = [] ∧
      HasLines (report.format {} .github) ["::notice file=", "::error::A.kt,line=1," ++
        "title=type_declarations::Missing public qualifier on class A"] := by
  have hlookup : feedTree.lookup ([] ++ ["\n::error::A.kt".toList]) =
      some (.file "class A".toUTF8 ⟨1, 0⟩) := rfl
  have hloc : feedTree.locate ⟨"\n::error::A.kt"⟩ = .ok ["\n::error::A.kt".toList] :=
    FileTree.locate_of_named (by decide) hlookup FileTree.file_ne_link (by decide)
  obtain ⟨report, hrun, hfailures, hfindings⟩ := Job.exists_run_dry rfl hloc hlookup
  refine ⟨report, hrun, by rw [hfindings]; rfl, hfailures, ?_⟩
  rw [format, annotationLines_eq]
  simp only [notices, errors, hfindings, hfailures]
  unfold HasLines
  decide +kernel

end ExplicitApi
