import ExplicitApi.Proofs.Report.Edits
import ExplicitApi.Proofs.Run.Gathering
import ExplicitApi.Proofs.Run.History

/-!
How the report of a run is made. Main statement: whatever is done to a report, and so in the report of
every run, the counters agree with the lists; a run that did not stop has counted each of its files.
-/
namespace ExplicitApi

namespace Job

variable {j : Job} {mode : Mode} {rules : Rules} {options : Options} {now : Time.Instant}
  {t : FileTree} {files files' : List Path} {report : Report}

/-- Whether a visit to a file can have this result. -/
inductive Yields (rules : Rules) (path : Path) : Visit → Prop
  | unchanged : Yields rules path .unchanged
  | modified (text : String) (written : Bool) : (qualify rules text).insertions ≠ [] →
      Yields rules path (.modified ⟨path, (qualify rules text).insertions, written⟩)
  | failed (cause : ProcessingError) : Yields rules path (.failed ⟨path, cause.message⟩)

theorem yields_outcome (j : Job) (mode : Mode) (t : FileTree) (path : Path) :
    Yields j.config.rules path (j.outcome mode t path) := by
  cases hvisit : j.visit mode t path with
  | error e =>
    rw [outcome_of_visit_error hvisit]
    cases comes_of_visit hvisit with
    | unreadable hread => exact .failed (.unreadable _)
    | refused hmode hwants hlocked => exact .failed (.unwritable _)
  | ok done =>
    rw [outcome_of_visit hvisit]
    cases comes_of_visit hvisit with
    | settled hsettled => exact .unchanged
    | foreseen hmode hwants | written hmode hwants hwritable => exact .modified _ _ hwants.insertions

theorem length_visits (j : Job) (mode : Mode) (t : FileTree) (files : List Path) :
    (j.visits mode t files).length = files.length := by
  fun_induction j.visits mode t files with
  | case1 t => rfl
  | case2 t path rest v t' h ih => rw [List.length_cons, List.length_cons, ih]
  | case3 t path rest e h ih => rw [List.length_cons, List.length_cons, ih]

theorem exists_yields_of_mem_visits {v : Visit} (hv : v ∈ j.visits mode t files) :
    ∃ path ∈ files, Yields j.config.rules path v := by
  fun_induction j.visits mode t files with
  | case1 t => cases hv
  | case2 t path rest v' t' h ih =>
    rcases List.mem_cons.1 hv with rfl | hv
    · exact ⟨path, List.mem_cons_self, outcome_of_visit h ▸ j.yields_outcome mode t path⟩
    · exact (ih hv).imp fun _ => .imp_left (List.mem_cons_of_mem _)
  | case3 t path rest e h ih =>
    rcases List.mem_cons.1 hv with rfl | hv
    · exact ⟨path, List.mem_cons_self, outcome_of_visit_error h ▸ j.yields_outcome mode t path⟩
    · exact (ih hv).imp fun _ => .imp_left (List.mem_cons_of_mem _)

/--
Whether a report is what edits make of an empty one that take in results for some files, until the
run stops.
-/
structure IsMadeBy (j : Job) (options : Options) (now : Time.Instant) (files : List Path)
    (report : Report) (edits : List Report.Edit) : Prop where
  report_eq : report = (Report.start options.mode now).edited edits
  results : ∀ v ∈ edits.filterMap Report.Edit.visit?,
    v = .cached ∨ ∃ path ∈ files, Yields j.config.rules path v
  whole : (∀ f, Report.Edit.stopAt f ∉ edits) →
    (edits.filterMap Report.Edit.visit?).length = files.length

section Made

variable {edits : List Report.Edit}

theorem IsMadeBy.tallies (h : IsMadeBy j options now files report edits) :
    report.Tallies (edits.filterMap Report.Edit.visit?) := by
  rw [h.report_eq]
  exact (Report.tallies_start options.mode now).edited edits

theorem IsMadeBy.exists_of_mem_files (h : IsMadeBy j options now files report edits) {o : Change}
    (ho : o ∈ report.files) : ∃ path ∈ files, Yields j.config.rules path (.modified o) := by
  obtain ⟨v, hv, hchange⟩ := List.mem_filterMap.1 (h.tallies.files.subset ho)
  cases v with
  | unchanged | cached | failed f => cases hchange
  | modified o' =>
    cases hchange
    exact (h.results _ hv).resolve_left nofun

theorem IsMadeBy.exists_of_mem_failures (h : IsMadeBy j options now files report edits)
    {f : Failure} (hf : f ∈ report.failures) :
    ∃ path ∈ files, Yields j.config.rules path (.failed f) := by
  obtain ⟨v, hv, hfailure⟩ := List.mem_filterMap.1 (h.tallies.failures.subset hf)
  cases v with
  | unchanged | cached | modified o => cases hfailure
  | failed f' =>
    cases hfailure
    exact (h.results _ hv).resolve_left nofun

theorem IsMadeBy.filesProcessed_eq (h : IsMadeBy j options now files report edits)
    (haborted : report.summary.aborted = false) :
    report.summary.filesProcessed = .ofNat files.length := by
  have hnone : ∀ f, Report.Edit.stopAt f ∉ edits := by
    intro f hf
    have hstopped := (Report.aborted_edited (Report.start options.mode now) edits).2 (.inr ⟨f, hf⟩)
    rw [← h.report_eq, haborted] at hstopped
    cases hstopped
  rw [h.tallies.processed, h.whole hnone]

/-- Skipped files are taken in behind the others. -/
theorem IsMadeBy.skip (h : IsMadeBy j options now files report edits) (known : List Path) :
    IsMadeBy j options now (known ++ files)
      (known.foldl (fun report _ => report.add .cached) report)
      (edits ++ (known.map fun _ => .cached).map .add) := by
  refine ⟨?_, fun v hv => ?_, fun hnone => ?_⟩
  · rw [Report.edited_append, ← h.report_eq, Report.edited_map_add, List.foldl_map]
  · rw [List.filterMap_append, Report.filterMap_visit?_map_add] at hv
    rcases List.mem_append.1 hv with hv | hv
    · exact (h.results v hv).imp_right fun ⟨path, hpath, hyields⟩ =>
        ⟨path, List.mem_append_right _ hpath, hyields⟩
    · obtain ⟨_, -, rfl⟩ := List.mem_map.1 hv
      exact .inl rfl
  · have hwhole := h.whole fun f hf => hnone f (List.mem_append_left _ hf)
    rw [List.filterMap_append, Report.filterMap_visit?_map_add, List.length_append,
      List.length_append, List.length_map, hwhole, Nat.add_comm]

theorem IsMadeBy.perm (h : IsMadeBy j options now files report edits) (hperm : files.Perm files') :
    IsMadeBy j options now files' report edits :=
  ⟨h.report_eq,
    fun v hv => (h.results v hv).imp_right fun ⟨path, hpath, hyields⟩ =>
      ⟨path, hperm.subset hpath, hyields⟩,
    fun hnone => (h.whole hnone).trans hperm.length_eq⟩

end Made

/-- A run up to the first failure takes in its results, or those up to the failure. -/
theorem exists_takesIn_addUntilFailure (r : Report) (vs : List Visit) :
    ∃ edits, r.addUntilFailure vs = r.edited edits ∧ Report.TakesIn edits vs := by
  fun_induction r.addUntilFailure vs with
  | case1 r => exact ⟨[], rfl, List.prefix_rfl, fun _ => rfl⟩
  | case2 r f rest =>
    exact ⟨[.stopAt f], rfl, ⟨rest, rfl⟩, fun hnone => absurd List.mem_cons_self (hnone f)⟩
  | case3 r v rest hv ih =>
    obtain ⟨edits, hedits, htakes⟩ := ih
    exact ⟨.add v :: edits, hedits, htakes.cons v⟩

theorem exists_takesIn_visitAll (j : Job) (options : Options) (now : Time.Instant) (t : FileTree)
    (files : List Path) :
    ∃ edits, (j.visitAll options now t files).1 = (Report.start options.mode now).edited edits ∧
      Report.TakesIn edits (j.visits options.mode t files) := by
  have hvisited : ∃ edits, ((if options.failFast then j.visitUntilFailure else j.visitEach)
        options.mode (Report.start options.mode now, t) files).1 =
          (Report.start options.mode now).edited edits ∧
      Report.TakesIn edits (j.visits options.mode t files) := by
    cases options.failFast with
    | false =>
      rw [if_neg Bool.false_ne_true, report_visitEach, ← Report.edited_map_add]
      exact ⟨_, rfl, Report.takesIn_map_add _⟩
    | true =>
      rw [if_pos rfl, report_visitUntilFailure]
      exact exists_takesIn_addUntilFailure _ _
  obtain ⟨edits, hedits, htakes⟩ := hvisited
  refine ⟨edits ++ [.withFingerprint j.config.fingerprint, .sorted], ?_, htakes.append rfl⟩
  rw [Report.edited_append, ← hedits]
  rfl

theorem exists_isMadeBy_visitAll (j : Job) (options : Options) (now : Time.Instant) (t : FileTree)
    (files : List Path) :
    ∃ edits, IsMadeBy j options now files (j.visitAll options now t files).1 edits := by
  obtain ⟨edits, hreport, htakes⟩ := exists_takesIn_visitAll j options now t files
  refine ⟨edits, hreport, fun v hv => .inr ?_, fun hnone => ?_⟩
  · exact exists_yields_of_mem_visits (htakes.front.subset hv)
  · rw [htakes.whole hnone, length_visits]

end Job

namespace Runner

variable {r r' : Runner} {options : Job.Options} {useCache : Bool} {now : Time.Instant}
  {t t' : FileTree} {paths : List Path} {report : Report}

/-- The report of a run, with or without a record, is made from its files. -/
theorem exists_isMadeBy_run (h : r.run options useCache now t paths = .ok (report, r', t')) :
    ∃ files edits, r.job.files options t paths = .ok files ∧
      Job.IsMadeBy r.job options now files report edits := by
  rw [run_eq] at h
  cases hfiles : r.job.files options t paths with
  | error e =>
    rw [hfiles] at h
    cases h
  | ok files =>
    rw [hfiles] at h
    dsimp only [Except.map] at h
    split at h
    · next c hc =>
      -- the known files are taken in behind the others, so they are counted out of order
      cases h
      obtain ⟨edits, hmade⟩ := r.job.exists_isMadeBy_visitAll options now t (unknown c t files)
      exact ⟨files, _, rfl, (hmade.skip (files.filter (isKnown c t))).perm
        (List.filter_append_perm (isKnown c t) files)⟩
    · cases h
      obtain ⟨edits, hmade⟩ := r.job.exists_isMadeBy_visitAll options now t files
      exact ⟨files, edits, rfl, hmade⟩

end Runner

/--
Whatever edits are made to a report, its counters agree with its lists; the report of every run is
made by such edits.
-/
theorem Report.counters_agree :
    (∀ (mode : Mode) (now : Time.Instant) (edits : List Report.Edit),
      let r := (Report.start mode now).edited edits
      let visits := edits.filterMap Report.Edit.visit?
      r.Tallies visits ∧
      r.summary.filesProcessed = .ofNat (visits.count .unchanged) + r.summary.filesCached +
        r.summary.filesModified + r.summary.filesFailed ∧
      (r.summary.aborted = true ↔ ∃ f, Report.Edit.stopAt f ∈ edits)) ∧
    (∀ r : Report, IsStableSort Change.path r.sorted.files r.files ∧
      IsStableSort Failure.path r.sorted.failures r.failures ∧
      r.sorted.summary = r.summary ∧ r.sorted.fingerprint = r.fingerprint) ∧
    (∀ (j : Job) (options : Job.Options) (now : Time.Instant) (t : FileTree) (files : List Path),
      let report := (j.visitAll options now t files).1
      (∃ edits, report = (Report.start options.mode now).edited edits) ∧
      (report.summary.aborted = false → report.summary.filesProcessed = .ofNat files.length)) ∧
    (∀ (r : Runner) (options : Job.Options) (useCache : Bool) (now : Time.Instant) (t : FileTree)
      (paths : List Path) (report : Report) (r' : Runner) (t' : FileTree),
      r.run options useCache now t paths = .ok (report, r', t') →
      ∃ files edits, r.job.files options t paths = .ok files ∧
        report = (Report.start options.mode now).edited edits ∧
        (report.summary.aborted = false →
          report.summary.filesProcessed = .ofNat files.length)) := by
  refine ⟨fun mode now edits => ?_, fun r => ?_, fun j options now t files => ?_,
    fun r options useCache now t paths report r' t' h => ?_⟩
  · have htallies := (tallies_start mode now).edited edits
    refine ⟨htallies, htallies.processed_eq, ?_⟩
    have haborted := aborted_edited (start mode now) edits
    simpa [start] using haborted
  · exact ⟨isStableSort_mergeSort _ _, isStableSort_mergeSort _ _, rfl, rfl⟩
  · obtain ⟨edits, hmade⟩ := j.exists_isMadeBy_visitAll options now t files
    exact ⟨⟨edits, hmade.report_eq⟩, hmade.filesProcessed_eq⟩
  · obtain ⟨files, edits, hfiles, hmade⟩ := Runner.exists_isMadeBy_run h
    exact ⟨files, edits, hfiles, hmade.report_eq, hmade.filesProcessed_eq⟩

theorem Report.counters_agree_sourceTree :
    ∃ report t', Runner.run ⟨Job.sourceJob, none⟩ { noIgnore := true } false .epoch
        Selection.sourceTree [⟨"src/A.kt"⟩, ⟨"src//A.kt"⟩] =
          .ok (report, ⟨Job.sourceJob, none⟩, t') ∧
      report.summary.aborted = false ∧ report.summary.filesProcessed = 1 := by
  have hfiles : Job.sourceJob.files { noIgnore := true } Selection.sourceTree
      [⟨"src/A.kt"⟩, ⟨"src//A.kt"⟩] = .ok [⟨"src/A.kt"⟩] :=
    Job.files_sourceTree (by simp) (by decide)
  have hrun : Runner.run ⟨Job.sourceJob, none⟩ { noIgnore := true } false .epoch
      Selection.sourceTree [⟨"src/A.kt"⟩, ⟨"src//A.kt"⟩] =
        .ok ((Job.sourceJob.visitAll { noIgnore := true } .epoch Selection.sourceTree
            [⟨"src/A.kt"⟩]).1, ⟨Job.sourceJob, none⟩,
          (Job.sourceJob.visitAll { noIgnore := true } .epoch Selection.sourceTree
            [⟨"src/A.kt"⟩]).2) := by
    rw [Runner.run_eq, hfiles]
    rfl
  have haborted : (Job.sourceJob.visitAll { noIgnore := true } .epoch Selection.sourceTree
      [⟨"src/A.kt"⟩]).1.summary.aborted = false :=
    (Job.visitEach_spec Job.sourceJob .write (Report.start .write .epoch, Selection.sourceTree)
      [⟨"src/A.kt"⟩]).2
  obtain ⟨files, edits, hfiles', -, hcount⟩ := counters_agree.2.2.2 _ _ _ _ _ _ _ _ _ hrun
  cases hfiles.symm.trans hfiles'
  exact ⟨_, _, hrun, haborted, hcount haborted⟩

end ExplicitApi
