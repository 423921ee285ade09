import ExplicitApi.Proofs.Run.Interleaving
import ExplicitApi.Proofs.Run.Listing
import ExplicitApi.Proofs.Run.Reordering

/-!
What runs report whose steps come in any order. Main statement: when no two paths lead to one file,
such a run reports what visiting one after another does.
-/
namespace ExplicitApi.Job

variable {j : Job} {mode : Mode} {t now : FileTree} {path : Path}

/-- What holds of one task when no other path leads to its file. -/
def Prompt (j : Job) (mode : Mode) (t now : FileTree) (task : Task) : Prop :=
  match task.stage with
  | .finished result => result = j.outcome mode t task.path
  | _ => now.readText task.path = t.readText task.path

theorem prompt_readStep (hshape : t.SameShape now) (h : now.readText path = t.readText path) :
    j.Prompt mode t now ⟨path, j.readStep mode now path⟩ := by
  rcases readStep_cases j mode now path with ⟨hfinished, -⟩ | ⟨-, _, _, -, hq⟩
  · rw [hfinished]
    exact outcome_congr hshape h
  · rw [hq]
    exact h

/-- Where no two paths lead to one file, a task does not notice the others. -/
theorem prompt_step {state state' : FileTree × List Task} (hprogress : j.Progress mode t state)
    (hapart : t.Apart (state.2.map (·.path)))
    (h : ∀ task ∈ state.2, j.Prompt mode t state.1 task) (hstep : j.Step mode state state') :
    ∀ task ∈ state'.2, j.Prompt mode t state'.1 task := by
  cases hstep with
  | read now front back path =>
    simp only [mem_middle, forall_eq_or_imp] at h ⊢
    exact ⟨prompt_readStep hprogress.advances.sameShape h.1, h.2⟩
  | write now front back path q =>
    obtain ⟨hadvances, -, -, hsound⟩ := hprogress
    simp only [mem_middle, forall_eq_or_imp] at h hsound ⊢
    obtain ⟨⟨rfl, loc, text, hwants, rfl⟩, -⟩ := hsound
    rw [writeStep_of_advances hadvances hwants]
    refine ⟨rfl, fun task htask => ?_⟩
    cases hwritable : t.writable loc with
    | false => exact h.2 task htask
    | true =>
      obtain ⟨content, modified, hlookup, -⟩ := hwants.found
      obtain ⟨content', modified', hnow⟩ := hadvances.sameShape.exists_file hlookup
      have hothers : ¬t.ReachSame path task.path := by
        have hperm : (front ++ ⟨path, .holding (qualify j.config.rules text)⟩ :: back).Perm
            (⟨path, .holding (qualify j.config.rules text)⟩ :: (front ++ back)) :=
          List.perm_middle
        have hmiddle := hapart.perm (hperm.map Task.path).symm
        exact (List.pairwise_cons.1 hmiddle).1 _ (List.mem_map_of_mem htask)
      have helsewhere : now.locate task.path ≠ .ok loc := by
        rw [FileTree.locate_congr hadvances.sameShape]
        exact fun htask => hothers ⟨loc, content, modified, hwants.located, htask, hlookup⟩
      have hkept := FileTree.readText_putContent hnow
        (qualify j.config.rules text).text.toUTF8 helsewhere
      have hold := h.2 task htask
      unfold Prompt at hold ⊢
      split at hold
      · exact hold
      · exact hkept.trans hold

theorem prompt_run {state state' : FileTree × List Task} (hprogress : j.Progress mode t state)
    (hapart : t.Apart (state.2.map (·.path)))
    (h : ∀ task ∈ state.2, j.Prompt mode t state.1 task)
    (hrun : Relation.ReflTransGen (j.Step mode) state state') :
    ∀ task ∈ state'.2, j.Prompt mode t state'.1 task := by
  induction hrun with
  | refl => exact h
  | tail hbefore hstep ih =>
    exact prompt_step (hprogress.run hbefore) (paths_run hbefore ▸ hapart) ih hstep

theorem Interleaves.results_eq {files : List Path} {t' : FileTree} {results : List Visit}
    (h : j.Interleaves mode t files t' results) (hapart : t.Apart files) :
    results = files.map (j.outcome mode t) := by
  obtain ⟨tasks, hrun, hstages⟩ := h
  have hpaths : tasks.map (·.path) = files := (paths_run hrun).trans (paths_waitingFor files)
  have hprompt : ∀ task ∈ tasks, j.Prompt mode t t' task := by
    refine prompt_run (progress_waitingFor j mode t files) ?_ (fun task htask => ?_) hrun
    · rwa [paths_waitingFor]
    · obtain ⟨p, -, rfl⟩ := List.mem_map.1 htask
      rfl
  have hfinished : ∀ task ∈ tasks, task.stage = .finished (j.outcome mode t task.path) := by
    intro task htask
    have hstage : task.stage ∈ results.map Stage.finished := hstages ▸ List.mem_map_of_mem htask
    obtain ⟨v, -, hv⟩ := List.mem_map.1 hstage
    have hresult := hprompt task htask
    unfold Prompt at hresult
    rw [← hv] at hresult ⊢
    rw [hresult]
  have hinjective : Function.Injective Stage.finished := fun _ _ => Stage.finished.inj
  refine List.map_injective_iff.2 hinjective ?_
  rw [← hstages, List.map_congr_left hfinished, ← hpaths, List.map_map, List.map_map]
  rfl

/--
Steps in any order leave the same contents, and give the same report where no two paths lead to one
file.
-/
theorem interleaves_exact (j : Job) (options : Options) (now : Time.Instant) {t t' : FileTree}
    {files : List Path} {results : List Visit}
    (hrun : j.Interleaves options.mode t files t' results) :
    let alone := j.visitAll { options with failFast := false } now t files
    alone.2.SameContents t' ∧
      (t.Apart files →
        j.reportOn options.mode now results = alone.1 ∧
        ∀ others, others.Perm files →
          let other := (j.visitAll { options with failFast := false } now t others).1
          other.AgreesUpToTies alone.1 ∧
          ((∀ f ∈ alone.1.failures, ∀ g ∈ alone.1.failures,
            f.path.components = g.path.components → f = g) → other = alone.1)) := by
  intro alone
  refine ⟨hrun.sameContents (Report.start options.mode now), fun hapart => ⟨?_, ?_⟩⟩
  · have halone : alone.1 = _ :=
      report_visitAll j { options with failFast := false } now (.inr hapart)
    rw [halone, reportOn, hrun.results_eq hapart]
    rfl
  · intro others hperm other
    have hagrees : other.AgreesUpToTies alone.1 :=
      agreesUpToTies_visitAll j options now hapart hperm
    exact ⟨hagrees, hagrees.eq⟩

/-- Two tasks can both read a text before either writes it. -/
theorem interleaves_pair {p q : Path} {loc : Location} {text : String}
    (hp : t.Wants j.config.rules p loc text) (hq : t.Wants j.config.rules q loc text)
    (hwritable : t.writable loc = true) :
    ∃ t', j.Interleaves .write t [p, q] t' [j.outcome .write t p, j.outcome .write t q] := by
  have hreadp := @Step.read j .write t [] [⟨q, .waiting⟩] p
  have hreadq := @Step.read j .write t [⟨p, .holding (qualify j.config.rules text)⟩] [] q
  rw [readStep_of_wants hp] at hreadp
  rw [readStep_of_wants hq] at hreadq
  have hendp := @Step.write j .write t [] [⟨q, .holding (qualify j.config.rules text)⟩] p
    (qualify j.config.rules text)
  rw [writeStep_of_advances (.refl _ t) hp, hwritable, if_pos rfl] at hendp
  have hendq := @Step.write j .write
    (t.putContent loc (qualify j.config.rules text).text.toUTF8)
    [⟨p, .finished (j.outcome .write t p)⟩] [] q (qualify j.config.rules text)
  rw [writeStep_of_advances ((FileTree.Advances.refl _ t).putContent hp hwritable) hq] at hendq
  exact ⟨_, _, (((Relation.ReflTransGen.single hreadp).tail hreadq).tail hendp).tail hendq, rfl⟩

open Selection (sourceTree)

/-- Two paths of one file, both read before either is written. -/
theorem interleaves_exact_sourceTree :
    ∃ t' results, sourceJob.Interleaves .write sourceTree [⟨"src/A.kt"⟩, ⟨"./src/A.kt"⟩] t'
      results ∧ (∀ v ∈ results, ∃ o, v = .modified o ∧ o.insertions ≠ []) ∧
      (sourceJob.visitAll {} .epoch sourceTree
        [⟨"src/A.kt"⟩, ⟨"./src/A.kt"⟩]).2.SameContents t' := by
  have hlookup : sourceTree.lookup ["src".toList, "A.kt".toList] =
      some (.file "class A".toUTF8 ⟨1, 0⟩) := rfl
  obtain ⟨-, -, hdotted, hplain⟩ := files_twice_sourceTree
  have hsome : (qualify sourceJob.config.rules "class A").insertions ≠ [] := by decide +kernel
  have hwants : ∀ {p : Path}, sourceTree.locate p = .ok ["src".toList, "A.kt".toList] →
      sourceTree.Wants sourceJob.config.rules p ["src".toList, "A.kt".toList] "class A" :=
    fun hloc => ⟨hloc, ⟨_, _, hlookup, fromUTF8?_toUTF8 _⟩, hsome⟩
  have houtcome : ∀ p, sourceTree.locate p = .ok ["src".toList, "A.kt".toList] →
      ∃ o, sourceJob.outcome .write sourceTree p = .modified o ∧ o.insertions ≠ [] :=
    fun p hloc => ⟨_, outcome_of_wants (hwants hloc) fun _ => rfl, hsome⟩
  obtain ⟨t', hrun⟩ := interleaves_pair (hwants hplain) (hwants hdotted) rfl
  refine ⟨t', _, hrun, fun v hv => ?_, (interleaves_exact sourceJob {} .epoch hrun).1⟩
  rcases List.mem_pair.1 hv with rfl | rfl
  · exact houtcome _ hplain
  · exact houtcome _ hdotted

def garbledTree : FileTree := FileTree.empty.put ["A.kt".toList] (.file ⟨#[0xff]⟩ ⟨1, 0⟩)

theorem readText_garbledTree :
    garbledTree.readText ⟨"A.kt"⟩ = .error .invalidUtf8 ∧
      garbledTree.locate ⟨"A.kt/"⟩ = .error .notDirectory := by
  have hlookup : garbledTree.lookup ([] ++ ["A.kt".toList]) =
      some (.file ⟨#[0xff]⟩ ⟨1, 0⟩) := rfl
  have hloc : garbledTree.locate ⟨"A.kt"⟩ = .ok ["A.kt".toList] :=
    FileTree.locate_of_named (by decide) hlookup FileTree.file_ne_link (by decide)
  have hread : garbledTree.read ⟨"A.kt"⟩ = .ok ⟨#[0xff]⟩ :=
    FileTree.read_eq_ok_iff.2 ⟨_, FileTree.entry_eq_ok_iff.2 ⟨_, hloc, hlookup⟩⟩
  have hpieces : Path.pieces "A.kt/".toList = ["A.kt".toList, []] := by decide
  have hresolve : garbledTree.resolve true ⟨"A.kt/"⟩ = .error .notDirectory := by
    have hhome : garbledTree.home = [] := rfl
    rw [FileTree.resolve, if_neg (by decide), if_neg (by decide), hhome, hpieces, FileTree.follow,
      if_neg (by decide), if_neg (by decide)]
    simp only [hlookup]
    rfl
  constructor
  · rw [FileTree.readText, hread]
    rfl
  · rw [FileTree.locate, hresolve]
    rfl

theorem failures_garbledTree (now : Time.Instant) {files : List Path} {failures : List Failure}
    (hfailed : files.filterMap (sourceJob.failureAt? .dry garbledTree) = failures)
    (hsame : failures.Pairwise fun f g => Report.precedes f.path g.path = true) :
    (sourceJob.visitAll { mode := .dry } now garbledTree files).1.failures = failures := by
  have hfailures := failures_visitAll sourceJob { mode := .dry } now garbledTree files
  rwa [hfailed, List.mergeSort_of_pairwise hsame] at hfailures

/-- Two spellings of a path that both fail are reported in the order of the list. -/
theorem visitAll_order_garbledTree :
    Job.ofConfig {} = .ok sourceJob ∧ garbledTree.Apart [⟨"A.kt"⟩, ⟨"A.kt/"⟩] ∧
      [Path.mk "A.kt/", ⟨"A.kt"⟩].Perm [⟨"A.kt"⟩, ⟨"A.kt/"⟩] ∧
      (sourceJob.visitAll { mode := .dry } .epoch garbledTree
        [⟨"A.kt/"⟩, ⟨"A.kt"⟩]).1 ≠
      (sourceJob.visitAll { mode := .dry } .epoch garbledTree
        [⟨"A.kt"⟩, ⟨"A.kt/"⟩]).1 := by
  obtain ⟨hplain, hclosed⟩ := readText_garbledTree
  have hfirst : sourceJob.failureAt? .dry garbledTree ⟨"A.kt"⟩ =
      some ⟨⟨"A.kt"⟩, (ProcessingError.unreadable .invalidUtf8).message⟩ :=
    failureAt?_of_visit_error (visit_unreadable hplain)
  have hread : garbledTree.readText ⟨"A.kt/"⟩ = .error .notDirectory := by
    rw [FileTree.readText, FileTree.read, FileTree.entry, hclosed]
    rfl
  have hsecond : sourceJob.failureAt? .dry garbledTree ⟨"A.kt/"⟩ =
      some ⟨⟨"A.kt/"⟩, (ProcessingError.unreadable .notDirectory).message⟩ :=
    failureAt?_of_visit_error (visit_unreadable hread)
  refine ⟨rfl, ?_, .swap _ _ _, fun hsame => ?_⟩
  · refine List.pairwise_pair.2 ?_
    rintro ⟨loc, _, _, -, hloc, -⟩
    cases hclosed.symm.trans hloc
  · have hfailures := congrArg Report.failures hsame
    rw [failures_garbledTree _ (by simp only [List.filterMap, hfirst, hsecond]; rfl)
        (List.pairwise_pair.2 (by decide)),
      failures_garbledTree _ (by simp only [List.filterMap, hfirst, hsecond]; rfl)
        (List.pairwise_pair.2 (by decide))] at hfailures
    exact absurd (congrArg (List.map Failure.path) hfailures) (by decide)

end ExplicitApi.Job
