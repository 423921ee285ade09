import ExplicitApi.Proofs.Run.Outcomes
import Mathlib.Data.List.Pairwise

/-!
What the report of a run tells of the files that it has visited. Main statement: these are all files,
or those up to the failure at which the run stopped; the report names those that cannot be read or
written as failed and, after a dry run, those that need a qualifier as left.
-/
namespace ExplicitApi

theorem Path.components_ne_of_lt {p q : Path} (h : compare p q = .lt) :
    p.components ≠ q.components := by
  intro heq
  have hsame : compare p.components q.components = .eq := by
    rw [heq]
    exact Std.ReflCmp.compare_self
  cases h.symm.trans hsame

namespace FileTree

variable {rules : Rules} {t t' : FileTree} {p : Path}

def HasText (t : FileTree) (p : Path) : Prop := ∃ text, t.readText p = .ok text

/-- Whether a path cannot be read as text, or is to be qualified where it may not be written. -/
def Fails (rules : Rules) (mode : Mode) (t : FileTree) (p : Path) : Prop :=
  ¬t.HasText p ∨ mode = .write ∧ ¬t.Settled rules p ∧
    ∃ loc, t.locate p = .ok loc ∧ t.writable loc = false

theorem Advances.hasText_iff (h : t.Advances rules t') : t'.HasText p ↔ t.HasText p := by
  rcases h.readText p with heq | ⟨text, hold, hnew⟩
  · rw [HasText, HasText, heq]
  · exact ⟨fun _ => ⟨text, hold⟩, fun _ => ⟨_, hnew⟩⟩

end FileTree

namespace Report

def HasFailed (r : Report) (p : Path) : Prop := ∃ f ∈ r.failures, p.same f.path = true

def HasLeft (r : Report) (p : Path) : Prop :=
  ∃ o ∈ r.files, p.same o.path = true ∧ o.written = false

variable {r : Report} {p : Path}

theorem any_same_pending_iff :
    (Runner.pending r).any p.same = true ↔ r.HasFailed p ∨ r.HasLeft p := by
  rw [List.any_eq_true]
  constructor
  · rintro ⟨q, hq, hsame⟩
    rcases Job.mem_pending_iff.1 hq with ⟨o, ho, hwritten, rfl⟩ | ⟨f, hf, rfl⟩
    · exact .inr ⟨o, ho, hsame, hwritten⟩
    · exact .inl ⟨f, hf, hsame⟩
  · rintro (⟨f, hf, hsame⟩ | ⟨o, ho, hsame, hwritten⟩)
    · exact ⟨_, Job.mem_pending_iff.2 (.inr ⟨f, hf, rfl⟩), hsame⟩
    · exact ⟨_, Job.mem_pending_iff.2 (.inl ⟨o, ho, hwritten, rfl⟩), hsame⟩

theorem hasFailed_add_failed (r : Report) (f : Failure) :
    (r.add (.failed f)).HasFailed p ↔ r.HasFailed p ∨ p.same f.path = true := by
  simp [HasFailed, add, or_and_right, exists_or]

theorem hasLeft_add_modified (r : Report) (o : Change) :
    (r.add (.modified o)).HasLeft p ↔
      r.HasLeft p ∨ p.same o.path = true ∧ o.written = false := by
  simp [HasLeft, add, or_and_right, exists_or]

end Report

namespace Job

variable {j : Job} {mode : Mode} {a b c : Report × FileTree}
  {files files' : List Path}

/--
Whether the report at `b` tells of the files visited since `a` which have failed, and which a dry
run has left.
-/
structure Tells (j : Job) (mode : Mode) (a b : Report × FileTree) (files : List Path) :
    Prop where
  advances : a.2.Advances j.config.rules b.2
  tree : mode = .dry → b.2 = a.2
  failed : ∀ p, b.1.HasFailed p ↔
    a.1.HasFailed p ∨ ∃ q ∈ files, p.same q = true ∧ j.failureAt? mode a.2 q ≠ none
  left : ∀ p, b.1.HasLeft p ↔ a.1.HasLeft p ∨
    ∃ q ∈ files, p.same q = true ∧ mode = .dry ∧ a.2.HasText q ∧ ¬a.2.Settled j.config.rules q
  cached : b.1.summary.filesCached = a.1.summary.filesCached

theorem Tells.refl (j : Job) (mode : Mode) (a : Report × FileTree) : j.Tells mode a a [] :=
  ⟨.refl _ _, fun _ => rfl, by simp, by simp, rfl⟩

theorem Tells.trans (h : j.Tells mode a b files) (h' : j.Tells mode b c files') :
    j.Tells mode a c (files ++ files') := by
  refine ⟨h.advances.trans h'.advances, fun hdry => (h'.tree hdry).trans (h.tree hdry),
    fun p => ?_, fun p => ?_, h'.cached.trans h.cached⟩
  · simp only [h'.failed, h.failed, failureAt?_of_advances h.advances, List.mem_append,
      or_and_right, exists_or, or_assoc]
  · have hbehind : ∀ q, (mode = .dry ∧ b.2.HasText q ∧ ¬b.2.Settled j.config.rules q) ↔
        (mode = .dry ∧ a.2.HasText q ∧ ¬a.2.Settled j.config.rules q) :=
      fun q => and_congr_right fun hdry => by rw [h.tree hdry]
    simp only [h'.left, h.left, hbehind, List.mem_append, or_and_right, exists_or, or_assoc]

theorem tells_of_visit {report : Report} {t t' : FileTree} {path : Path} {v : Visit}
    (h : j.visit mode t path = .ok (v, t')) :
    j.Tells mode (report, t) (report.add v, t') [path] := by
  have htext : t.HasText path := exists_readText_of_visit h
  have hnone := failureAt?_of_visit h
  refine ⟨(visit_spec h).1, ?_, fun p => ?_, fun p => ?_, ?_⟩
  · rintro rfl
    exact tree_of_visit_dry h
  · have hkept : (report.add v).failures = report.failures := failures_add_of_visit h report
    simp [Report.HasFailed, hkept, hnone]
  · cases comes_of_visit h with
    | settled hsettled => simp [hsettled, Report.add, Report.HasLeft]
    | foreseen hmode hwants =>
      rw [Report.hasLeft_add_modified]
      simp [hmode, htext, hwants.not_settled]
    | written hmode hwants =>
      rw [Report.hasLeft_add_modified]
      simp [hmode]
  · cases comes_of_visit h <;> rfl

theorem tells_of_failure (report : Report) {t : FileTree} {path : Path} {e : Error}
    (h : j.visit mode t path = .error e) :
    j.Tells mode (report, t) (report.add (.failed (failureOf path e)), t) [path] := by
  have hfailure := failureAt?_of_visit_error h
  refine ⟨.refl _ _, fun _ => rfl, fun p => ?_, fun p => ?_, rfl⟩
  · rw [Report.hasFailed_add_failed, path_failureOf]
    simp [hfailure]
  · have hnot : ¬(mode = .dry ∧ t.HasText path ∧ ¬t.Settled j.config.rules path) := by
      rintro ⟨rfl, ⟨text, hread⟩, -⟩
      cases comes_of_visit h with
      | unreadable hunread => cases hunread.symm.trans hread
      | refused hmode => cases hmode
    simp [hnot, Report.add, Report.HasLeft]

/-- What fails is what cannot be read, and what is to be qualified but may not be written. -/
theorem failureAt?_ne_none_iff {t : FileTree} {p : Path} :
    j.failureAt? mode t p ≠ none ↔ t.Fails j.config.rules mode p := by
  cases hvisit : j.visit mode t p with
  | ok done =>
    rw [failureAt?_of_visit hvisit]
    refine iff_of_false (not_not.2 rfl) ?_
    rintro (hnone | ⟨hmode, hunsettled, loc, hloc, hlocked⟩)
    · exact hnone (exists_readText_of_visit hvisit)
    · cases comes_of_visit hvisit with
      | settled hsettled => exact hunsettled hsettled
      | foreseen hdry => cases hmode.symm.trans hdry
      | written _ hwants hwritable =>
        cases hloc.symm.trans hwants.located
        cases hlocked.symm.trans hwritable
  | error e =>
    rw [failureAt?_of_visit_error hvisit]
    refine iff_of_true (Option.some_ne_none _) ?_
    cases comes_of_visit hvisit with
    | unreadable hunread =>
      refine .inl ?_
      rintro ⟨text, hread⟩
      cases hunread.symm.trans hread
    | refused hmode hwants hlocked =>
      exact .inr ⟨hmode, hwants.not_settled, _, hwants.located, hlocked⟩

theorem tells_visitEach (j : Job) (mode : Mode) (done : Report × FileTree) (files : List Path) :
    j.Tells mode done (j.visitEach mode done files) files := by
  fun_induction j.visitEach mode done files with
  | case1 done => exact .refl _ _ _
  | case2 report t path rest v t' h ih => exact (tells_of_visit h).trans ih
  | case3 report t path rest e h ih => exact (tells_of_failure report h).trans ih

theorem tells_visitUntilFailure (j : Job) (mode : Mode) (done : Report × FileTree)
    (files : List Path) :
    (j.Tells mode done (j.visitUntilFailure mode done files) files ∧
        (j.visitUntilFailure mode done files).1.summary.aborted = done.1.summary.aborted) ∨
      ∃ front back f, files = front ++ f.path :: back ∧
        j.Tells mode done (j.visitUntilFailure mode done files)
          (front ++ [f.path]) ∧
        (j.visitUntilFailure mode done files).1.failures = done.1.failures ++ [f] ∧
        (j.visitUntilFailure mode done files).1.summary.aborted = true := by
  fun_induction j.visitUntilFailure mode done files with
  | case1 done => exact .inl ⟨.refl _ _ _, rfl⟩
  | case2 report t path rest v t' h ih =>
    have htells : j.Tells mode (report, t) (report.add v, t') [path] :=
      tells_of_visit h
    rcases ih with ⟨hrest, haborted⟩ | ⟨front, back, f, hfiles, hrest, hfailures, haborted⟩
    · exact .inl ⟨htells.trans hrest, haborted.trans (aborted_add report v)⟩
    · refine .inr ⟨path :: front, back, f, by rw [hfiles]; rfl, htells.trans hrest, ?_, haborted⟩
      rw [hfailures, failures_add_of_visit h report]
  | case3 report t path rest e h =>
    obtain ⟨hadvances, htree, hfailed, hleft, hcached⟩ := tells_of_failure report h
    refine .inr ⟨[], rest, failureOf path e, by rw [path_failureOf]; rfl, ?_, rfl, rfl⟩
    rw [path_failureOf]
    exact ⟨hadvances, htree, hfailed, hleft, hcached⟩

theorem Tells.sorted {report : Report} {t : FileTree} (h : j.Tells mode a (report, t) files)
    (fingerprint : String) :
    j.Tells mode a ((report.withFingerprint fingerprint).sorted, t) files := by
  refine ⟨h.advances, h.tree, fun p => ?_, fun p => ?_, h.cached⟩
  · rw [← h.failed p]
    simp [Report.HasFailed, Report.sorted, Report.withFingerprint]
  · rw [← h.left p]
    simp [Report.HasLeft, Report.sorted, Report.withFingerprint]

/-- The files of a list that a run has reached: all, or those up to the failure it stopped at. -/
def Reaches (report : Report) (files reached : List Path) : Prop :=
  report.summary.aborted = false ∧ reached = files ∨
    report.summary.aborted = true ∧ ∃ front f back, report.failures = [f] ∧
      reached = front ++ [f.path] ∧ files = reached ++ back

theorem Reaches.sublist {report : Report} {reached : List Path} (h : Reaches report files reached) :
    reached.Sublist files := by
  rcases h with ⟨-, rfl⟩ | ⟨-, front, f, back, -, -, rfl⟩
  · exact List.Sublist.refl _
  · exact List.sublist_append_left _ _

/-- Among different files, those up to the failure at which a run stopped count as visited. -/
theorem visited_of_aborted {report : Report} {f : Failure} {front back : List Path}
    (hfailures : report.failures = [f]) (haborted : report.summary.aborted = true)
    (hfiles : (front ++ f.path :: back).Pairwise fun p q => compare p q = .lt) :
    Runner.visited report (front ++ f.path :: back) = front ++ [f.path] := by
  have hfront : ∀ q ∈ front, q.same f.path = false := by
    intro q hq
    have hlt := (List.pairwise_append.1 hfiles).2.2 q hq f.path List.mem_cons_self
    exact beq_eq_false_iff_ne.2 (Path.components_ne_of_lt hlt)
  have hfound : (front ++ f.path :: back).findIdx? (fun path => path.same f.path) =
      some front.length := by
    rw [List.findIdx?_append, List.findIdx?_eq_none_iff.2 hfront, List.findIdx?_cons,
      if_pos (same_self f.path)]
    simp
  have htake : (front ++ f.path :: back).take (front.length + 1) = front ++ [f.path] :=
    List.take_length_add_append 1
  simp only [Runner.visited, hfailures, haborted, hfound, if_true, htake]

/-- Whether a report tells of the files that count as visited, which are those that were reached. -/
def TellsVisited (j : Job) (mode : Mode) (a b : Report × FileTree) (files : List Path) : Prop :=
  Reaches b.1 files (Runner.visited b.1 files) ∧
    j.Tells mode a b (Runner.visited b.1 files)

theorem Tells.visited {report : Report} {t : FileTree}
    (h : j.Tells mode a (report, t) files) (haborted : report.summary.aborted = false)
    (fingerprint : String) :
    j.TellsVisited mode a ((report.withFingerprint fingerprint).sorted, t) files := by
  have haborted : (report.withFingerprint fingerprint).sorted.summary.aborted = false := haborted
  have hvisited := visited_of_not_aborted haborted files
  refine ⟨.inl ⟨haborted, hvisited⟩, ?_⟩
  rw [hvisited]
  exact h.sorted fingerprint

/-- A run tells of the files that count as visited. -/
theorem tellsVisited_visitAll (j : Job) (options : Options) (now : Time.Instant) (t : FileTree)
    (hfiles : files.Pairwise fun p q => compare p q = .lt) :
    j.TellsVisited options.mode (Report.start options.mode now, t)
      (j.visitAll options now t files) files := by
  unfold visitAll
  cases options.failFast with
  | false =>
    have haborted := (visitEach_spec j options.mode (Report.start options.mode now, t) files).2
    exact (tells_visitEach j options.mode _ files).visited haborted _
  | true =>
    rcases tells_visitUntilFailure j options.mode (Report.start options.mode now, t) files with
      ⟨htells, haborted⟩ | ⟨front, back, f, rfl, htells, hfailures, haborted⟩
    · exact htells.visited haborted _
    · have hsorted := htells.sorted j.config.fingerprint
      have hsingle : ((visitUntilFailure j options.mode (Report.start options.mode now, t)
          (front ++ f.path :: back)).1.withFingerprint j.config.fingerprint).sorted.failures =
            [f] := by
        simp only [Report.sorted, Report.withFingerprint, hfailures]
        exact List.mergeSort_singleton f
      have hvisited := visited_of_aborted hsingle haborted hfiles
      simp only [if_true, TellsVisited]
      rw [hvisited]
      exact ⟨.inr ⟨haborted, front, f, back, hsingle, rfl, List.append_cons _ _ _⟩, hsorted⟩

end Job

end ExplicitApi
