import ExplicitApi.Proofs.Report.Edits
import ExplicitApi.Proofs.Run.Concurrent

/-!
What a run may come to when it is free to visit several files at once. Main statement: however its
steps come, it fails alike and leaves the same contents, and it reports the same if no visit can
change what another one finds.
-/
namespace ExplicitApi

namespace FileTree

variable {t t' t'' : FileTree}

theorem SameContents.refl (t : FileTree) : t.SameContents t := ⟨rfl, fun _ => rfl⟩

theorem SameContents.symm (h : t.SameContents t') : t'.SameContents t :=
  ⟨h.1.symm, fun loc => (h.2 loc).symm⟩

theorem SameContents.trans (h : t.SameContents t') (h' : t'.SameContents t'') :
    t.SameContents t'' :=
  ⟨h'.1.trans h.1, fun loc => (h'.2 loc).trans (h.2 loc)⟩

end FileTree

namespace Report

/-- Whether two reports tell the same failures, and count the same files if complete. -/
structure FailsLike (a b : Report) : Prop where
  failures : a.failures = b.failures
  aborted : a.summary.aborted = b.summary.aborted
  filesFailed : a.summary.filesFailed = b.summary.filesFailed
  filesProcessed : a.summary.aborted = false →
    a.summary.filesProcessed = b.summary.filesProcessed

/-- Whether two reports also tell the same changes. -/
structure Agrees (a b : Report) : Prop extends a.FailsLike b where
  files : a.files = b.files
  filesModified : a.summary.filesModified = b.summary.filesModified
  declarationsQualified : a.summary.declarationsQualified = b.summary.declarationsQualified

theorem FailsLike.trans {a b c : Report} (h : a.FailsLike b) (h' : b.FailsLike c) :
    a.FailsLike c :=
  ⟨h.failures.trans h'.failures, h.aborted.trans h'.aborted, h.filesFailed.trans h'.filesFailed,
    fun ha => (h.filesProcessed ha).trans (h'.filesProcessed (h.aborted ▸ ha))⟩

theorem Agrees.refl (a : Report) : a.Agrees a := ⟨⟨rfl, rfl, rfl, fun _ => rfl⟩, rfl, rfl, rfl⟩

theorem Agrees.trans {a b c : Report} (h : a.Agrees b) (h' : b.Agrees c) : a.Agrees c :=
  ⟨h.toFailsLike.trans h'.toFailsLike, h.files.trans h'.files,
    h.filesModified.trans h'.filesModified,
    h.declarationsQualified.trans h'.declarationsQualified⟩

end Report

namespace Job

variable {j : Job} {options : Options} {mode : Mode} {now : Time.Instant} {t t' : FileTree}
  {files : List Path} {p : Path} {results results' : List Visit} {done done' : Report × FileTree}

/-- Whether a run over a list of files may come to a report and a tree. -/
def MayGive (j : Job) (options : Options) (now : Time.Instant) (t : FileTree) (files : List Path)
    (done : Report × FileTree) : Prop :=
  if options.parallel && !options.failFast then
    ∃ results, j.Interleaves options.mode t files done.2 results ∧
      done.1 = j.reportOn options.mode now results
  else done = j.visitAll options now t files

/-- Whether nothing of what a run over a list of files reports depends on the order of its steps. -/
def IsOrderly (options : Options) (t : FileTree) (files : List Path) : Prop :=
  options.parallel = false ∨ options.failFast = true ∨ Independent options.mode t files

theorem forall₂_of_tasks {P : Task → Prop} {tasks : List Task} (h : ∀ task ∈ tasks, P task)
    (hresults : tasks.map (·.stage) = results.map .finished) :
    List.Forall₂ (fun p v => P ⟨p, .finished v⟩) (tasks.map (·.path)) results := by
  induction tasks generalizing results with
  | nil =>
    cases results with
    | nil => exact .nil
    | cons v results => cases hresults
  | cons task tasks ih =>
    cases results with
    | nil => cases hresults
    | cons v results =>
      obtain ⟨hstage, hrest⟩ := List.cons.inj hresults
      refine .cons ?_ (ih (fun task htask => h task (List.mem_cons_of_mem _ htask)) hrest)
      rw [← hstage]
      exact h task List.mem_cons_self

/-- What holds of each file of a run and its result, in whatever order its steps came. -/
theorem Interleaves.sound (h : j.Interleaves mode t files t' results) :
    List.Forall₂ (fun p v => j.Sound mode t t' ⟨p, .finished v⟩) files results := by
  obtain ⟨tasks, hrun, hstages⟩ := h
  have hpaths : tasks.map (·.path) = files := (paths_run hrun).trans (paths_waitingFor files)
  rw [← hpaths]
  exact forall₂_of_tasks ((progress_waitingFor j mode t files).run hrun).sound hstages

theorem failure?_outcome (j : Job) (mode : Mode) (t : FileTree) (p : Path) :
    (j.outcome mode t p).failure? = j.failureAt? mode t p := by
  cases hvisit : j.visit mode t p with
  | error e =>
    rw [outcome_of_visit_error hvisit, failureAt?_of_visit_error hvisit]
    rfl
  | ok done =>
    rw [outcome_of_visit hvisit, failureAt?_of_visit hvisit]
    cases hv : done.1 with
    | failed f => exact absurd hv (outcome_ne_failed hvisit f)
    | unchanged | cached | modified o => rfl

theorem failureAt?_of_outcome {o : Change} (h : j.outcome mode t p = .modified o) :
    j.failureAt? mode t p = none := by
  rw [← failure?_outcome, h]
  rfl

/-- Where no visit can change what another one finds, the order of the steps does not show. -/
theorem Interleaves.results_eq_of_independent (h : j.Interleaves mode t files t' results)
    (hindependent : Independent mode t files) : results = files.map (j.outcome mode t) := by
  rcases hindependent with rfl | hapart
  · have hsound := h.sound
    clear h
    induction hsound with
    | nil => rfl
    | cons hv _ ih =>
      rcases hv.1 with heq | ⟨hmode, -⟩
      · rw [List.map_cons, ← ih, heq]
      · cases hmode
  · exact h.results_eq hapart

theorem tallies_reportOn (j : Job) (mode : Mode) (now : Time.Instant) (results : List Visit) :
    (j.reportOn mode now results).Tallies results := by
  have h := ((Report.tallies_start mode now).edited (results.map .add)).apply
    (.withFingerprint j.config.fingerprint) |>.sorted
  rw [Report.edited_map_add, Report.filterMap_visit?_map_add] at h
  simp only [Report.Edit.visit?, Option.toList_none, List.append_nil, List.nil_append] at h
  exact h

theorem aborted_foldl_add (r : Report) (results : List Visit) :
    (results.foldl Report.add r).summary.aborted = r.summary.aborted := by
  induction results generalizing r with
  | nil => rfl
  | cons v results ih => rw [List.foldl_cons, ih, aborted_add]

theorem aborted_reportOn (j : Job) (mode : Mode) (now : Time.Instant) (results : List Visit) :
    (j.reportOn mode now results).summary.aborted = false :=
  aborted_foldl_add (Report.start mode now) results

section MayGive

theorem mayGive_of_parallel (hparallel : (options.parallel && !options.failFast) = true) :
    j.MayGive options now t files done ↔ ∃ results,
      j.Interleaves options.mode t files done.2 results ∧
        done.1 = j.reportOn options.mode now results := by
  rw [MayGive, if_pos hparallel]

theorem mayGive_of_serial (hserial : ¬(options.parallel && !options.failFast) = true) :
    j.MayGive options now t files done ↔ done = j.visitAll options now t files := by
  rw [MayGive, if_neg hserial]

/-- A run may visit its files one after another. -/
theorem mayGive_visitAll (j : Job) (options : Options) (now : Time.Instant) (t : FileTree)
    (files : List Path) : j.MayGive options now t files (j.visitAll options now t files) := by
  by_cases hparallel : (options.parallel && !options.failFast) = true
  · obtain ⟨-, hpassing⟩ := Bool.and_eq_true_iff.1 hparallel
    rw [mayGive_of_parallel hparallel, visitAll, if_neg (by simpa using hpassing)]
    refine ⟨_, j.interleaves_visitEach options.mode (.start options.mode now) t files, ?_⟩
    exact congrArg (fun r => (r.withFingerprint j.config.fingerprint).sorted)
      (report_visitEach (Report.start options.mode now, t) files)
  · exact (mayGive_of_serial hparallel).2 rfl

/-- An orderly run gives one report, whatever the order of its steps. -/
theorem MayGive.report_eq (h : j.MayGive options now t files done)
    (h' : j.MayGive options now t files done') (horderly : IsOrderly options t files) :
    done.1 = done'.1 := by
  by_cases hparallel : (options.parallel && !options.failFast) = true
  · obtain ⟨results, hrun, hreport⟩ := (mayGive_of_parallel hparallel).1 h
    obtain ⟨results', hrun', hreport'⟩ := (mayGive_of_parallel hparallel).1 h'
    have hindependent : Independent options.mode t files := by
      rcases horderly with hserial | hstopping | hindependent
      · simp [hserial] at hparallel
      · simp [hstopping] at hparallel
      · exact hindependent
    rw [hreport, hreport', hrun.results_eq_of_independent hindependent,
      hrun'.results_eq_of_independent hindependent]
  · rw [(mayGive_of_serial hparallel).1 h, (mayGive_of_serial hparallel).1 h']

theorem Interleaves.covers (h : j.Interleaves mode t files t' results) :
    Covers j.config.rules (Report.start mode now, t) (j.reportOn mode now results, t') files := by
  obtain ⟨hadvances, hdry, -, hsettled⟩ := h.progress
  have htallies := j.tallies_reportOn mode now results
  refine ⟨hadvances, nofun, fun p hp => ?_⟩
  obtain ⟨v, hv, hsound⟩ : ∃ v ∈ results, j.Sound mode t t' ⟨p, .finished v⟩ := by
    obtain ⟨i, hi, rfl⟩ := List.getElem_of_mem hp
    have hlength := h.sound.length_eq
    exact ⟨results[i], List.getElem_mem _, h.sound.get hi (hlength ▸ hi)⟩
  rcases j.outcome_cases mode t p with
    ⟨hsettled, -⟩ | ⟨loc, text, hwants, hwritable, heq⟩ | ⟨f, hpath, heq, -⟩
  · exact .inr (hadvances.settled hsettled)
  · rcases hsound.1 with hv' | ⟨hmode, -⟩
    · cases mode with
      | dry =>
        have hchange : (⟨p, (qualify j.config.rules text).insertions, false⟩ : Change) ∈
            (j.reportOn .dry now results).files :=
          htallies.files.mem_iff.2 (List.mem_filterMap.2 ⟨v, hv, by rw [hv', heq]; rfl⟩)
        exact .inl (mem_pending_iff.2 (.inl ⟨_, hchange, rfl, rfl⟩))
      | write => exact .inr (hsettled rfl p hp (failureAt?_of_outcome heq))
    · exact .inr (hsettled hmode p hp (failureAt?_of_outcome heq))
  · refine .inl (mem_pending_iff.2 (.inr ⟨f, ?_, hpath⟩))
    have hfailed : v = .failed f := by
      rcases hsound.1 with hv' | ⟨-, -, o, ho⟩
      · exact hv'.trans heq
      · cases heq.symm.trans ho
    exact htallies.failures.mem_iff.2 (List.mem_filterMap.2 ⟨v, hv, hfailed ▸ rfl⟩)

/-- The files that a run has visited need nothing afterwards, or are pending. -/
theorem MayGive.covers (h : j.MayGive options now t files done) :
    Covers j.config.rules (Report.start options.mode now, t) done
      (Runner.visited done.1 files) := by
  by_cases hparallel : (options.parallel && !options.failFast) = true
  · obtain ⟨results, hrun, hreport⟩ := (mayGive_of_parallel hparallel).1 h
    obtain ⟨report, t'⟩ := done
    subst hreport
    rw [visited_of_not_aborted (j.aborted_reportOn options.mode now results)]
    exact hrun.covers
  · rw [(mayGive_of_serial hparallel).1 h]
    exact j.visitAll_spec options now t files

end MayGive

end Job

namespace Runner

variable {r : Runner} {options : Job.Options} {useCache : Bool} {now : Time.Instant}
  {t : FileTree} {paths : List Path}

def unknown (c : Cache) (t : FileTree) (files : List Path) : List Path :=
  files.filter fun path => !isKnown c t path

/-- What comes of a run that visited the files of a list which a record does not answer for. -/
def partly (r : Runner) (c : Cache) (t : FileTree) (files : List Path)
    (done : Report × FileTree) : Report × Runner × FileTree :=
  let (report, c, t) := takeIn c (files.filter (isKnown c t)) (unknown c t files) done
  (report, { r with cache := some c }, t)

/-- Whether a run over some paths may come to a result. -/
inductive MayGive (r : Runner) (options : Job.Options) (useCache : Bool) (now : Time.Instant)
    (t : FileTree) (paths : List Path) : Except Error (Report × Runner × FileTree) → Prop
  | failed {e : Error} (hfiles : r.job.files options t paths = .error e) :
      MayGive r options useCache now t paths (.error e)
  | whole {files : List Path} {done : Report × FileTree}
      (hcache : useCache = false ∨ r.cache = none) (hfiles : r.job.files options t paths = .ok files)
      (hdone : r.job.MayGive options now t files done) :
      MayGive r options useCache now t paths (.ok (done.1, r, done.2))
  | partly {c : Cache} {files : List Path} {done : Report × FileTree}
      (hcache : useCache = true ∧ r.cache = some c)
      (hfiles : r.job.files options t paths = .ok files)
      (hdone : r.job.MayGive options now t (unknown c t files) done) :
      MayGive r options useCache now t paths (.ok (r.partly c t files done))

theorem runCached_eq (j : Job) (c : Cache) (options : Job.Options) (now : Time.Instant)
    (t : FileTree) (paths : List Path) :
    runCached j c options now t paths = (j.files options t paths).map fun files =>
      takeIn c (files.filter (isKnown c t)) (unknown c t files)
        (j.visitAll options now t (unknown c t files)) := by
  unfold runCached
  cases j.files options t paths with
  | error e => rfl
  | ok files =>
    simp only [bind, Except.bind, List.partition_eq_filter_filter]
    rfl

/-- What a run gives that visits its files one after another, by the files that it finds. -/
theorem run_eq (r : Runner) (options : Job.Options) (useCache : Bool) (now : Time.Instant)
    (t : FileTree) (paths : List Path) :
    r.run options useCache now t paths = (r.job.files options t paths).map fun files =>
      match if useCache then r.cache else none with
      | some c => r.partly c t files (r.job.visitAll options now t (unknown c t files))
      | none =>
        let done := r.job.visitAll options now t files
        (done.1, r, done.2) := by
  obtain ⟨job, cache⟩ := r
  simp only [Runner.run, Job.run, runCached_eq]
  cases job.files options t paths <;> cases cache <;> cases useCache <;> rfl

/-- A run may visit its files one after another. -/
theorem mayGive_run (r : Runner) (options : Job.Options) (useCache : Bool) (now : Time.Instant)
    (t : FileTree) (paths : List Path) :
    r.MayGive options useCache now t paths (r.run options useCache now t paths) := by
  rw [run_eq]
  cases hfiles : r.job.files options t paths with
  | error e => exact .failed hfiles
  | ok files =>
    dsimp only [Except.map]
    split
    · next c hc =>
      refine .partly ?_ hfiles (r.job.mayGive_visitAll options now t _)
      cases useCache with
      | true => exact ⟨rfl, hc⟩
      | false => cases hc
    · next hc =>
      refine .whole ?_ hfiles (r.job.mayGive_visitAll options now t files)
      cases useCache with
      | true => exact .inr hc
      | false => exact .inl rfl

end Runner

end ExplicitApi
