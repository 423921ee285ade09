import ExplicitApi.Proofs.Run.Outcomes

/-!
Runs that stop at the first failure. Main statement: such a run is the run that passes over failures,
on the shortest front of its list that ends with a file whose visit fails.
-/
namespace ExplicitApi

namespace FileTree

/-- Whether two trees differ in the contents of files alone, and not where some paths lead. -/
structure ReadAlike (t t' : FileTree) (paths : List Path) : Prop where
  shape : t.SameShape t'
  texts : ∀ p ∈ paths, t'.readText p = t.readText p

variable {t t' : FileTree} {path : Path} {rest : List Path}

theorem ReadAlike.tail (h : t.ReadAlike t' (path :: rest)) : t.ReadAlike t' rest :=
  ⟨h.shape, fun p hp => h.texts p (List.mem_cons_of_mem _ hp)⟩

theorem ReadAlike.head (h : t.ReadAlike t' (path :: rest)) :
    t'.readText path = t.readText path :=
  h.texts path List.mem_cons_self

/-- What is put into one file of both trees is read alike afterwards. -/
theorem ReadAlike.putContent (h : t.ReadAlike t' rest) {loc : Location} {c c' : ByteArray}
    {m m' : Timestamp} (hlookup : t.lookup loc = some (.file c m))
    (hlookup' : t'.lookup loc = some (.file c' m')) (text : String) :
    (t.putContent loc text.toUTF8).ReadAlike (t'.putContent loc text.toUTF8) rest := by
  have hput := sameShape_putContent hlookup text.toUTF8
  have hput' := sameShape_putContent hlookup' text.toUTF8
  refine ⟨(hput.symm.trans h.shape).trans hput', fun q hq => ?_⟩
  by_cases hloc : t.locate q = .ok loc
  · have hloc' : t'.locate q = .ok loc := (locate_congr h.shape q).trans hloc
    have hnew := lookup_putContent hlookup text.toUTF8 loc
    have hnew' := lookup_putContent hlookup' text.toUTF8 loc
    rw [if_pos rfl] at hnew hnew'
    have hread := readText_eq_ok_iff_lookup.2 ⟨loc, _, _, (locate_congr hput q).trans hloc, hnew,
      fromUTF8?_toUTF8 text⟩
    have hread' := readText_eq_ok_iff_lookup.2 ⟨loc, _, _, (locate_congr hput' q).trans hloc', hnew',
      fromUTF8?_toUTF8 text⟩
    rw [hread, hread']
  · have hloc' : t'.locate q ≠ .ok loc := by rwa [locate_congr h.shape]
    rw [readText_putContent hlookup _ hloc, readText_putContent hlookup' _ hloc', h.texts q hq]

end FileTree

def Report.asStopped (r : Report) : Report :=
  { r with summary := { r.summary with aborted := true } }

namespace Job

variable {j : Job} {mode : Mode} {t t' t₁ : FileTree} {path : Path} {files visited rest : List Path}
  {v : Visit} {e : Error}

def treeAfter (j : Job) (mode : Mode) (t : FileTree) (files : List Path) : FileTree :=
  (j.visitEach mode (Report.start mode .epoch, t) files).2

/-- Whether the last of some files is one whose visit fails when they are visited one by one. -/
def EndsInFailure (j : Job) (mode : Mode) (t : FileTree) (files : List Path) : Prop :=
  ∃ front path e, files = front ++ [path] ∧
    j.visit mode (j.treeAfter mode t front) path = .error e

/-- Whether `visited` is the shortest front of a list that ends in failure, or all if none does. -/
structure StopsAfter (j : Job) (mode : Mode) (t : FileTree) (files visited : List Path) : Prop where
  front : visited <+: files
  shortest : ∀ front, front <+: visited → j.EndsInFailure mode t front → front = visited
  whole : j.EndsInFailure mode t visited ∨ visited = files

theorem not_endsInFailure_nil : ¬j.EndsInFailure mode t [] := by
  rintro ⟨front, path, e, h, -⟩
  exact List.concat_ne_nil path front h.symm

theorem endsInFailure_singleton (h : j.visit mode t path = .error e) :
    j.EndsInFailure mode t [path] := ⟨[], path, e, rfl, h⟩

theorem visitEach_cons (h : j.visit mode t path = .ok (v, t')) (report : Report)
    (rest : List Path) :
    j.visitEach mode (report, t) (path :: rest) = j.visitEach mode (report.add v, t') rest := by
  rw [visitEach, h]

/-- What a run does to the tree does not depend on what was reported before. -/
theorem tree_visitEach (report : Report) (t : FileTree) (files : List Path) :
    (j.visitEach mode (report, t) files).2 = j.treeAfter mode t files := by
  have hreport : ∀ report' : Report,
      (j.visitEach mode (report, t) files).2 = (j.visitEach mode (report', t) files).2 := by
    induction files generalizing report t with
    | nil => exact fun _ => rfl
    | cons path rest ih =>
      intro report'
      cases h : j.visit mode t path with
      | ok result =>
        rw [visitEach_cons h, visitEach_cons h]
        exact ih _ _ _
      | error e =>
        rw [visitEach, visitEach, h]
        exact ih _ _ _
  exact hreport _

theorem endsInFailure_cons (h : j.visit mode t path = .ok (v, t')) :
    j.EndsInFailure mode t (path :: rest) ↔ j.EndsInFailure mode t' rest := by
  have hafter : ∀ front, j.treeAfter mode t (path :: front) = j.treeAfter mode t' front := by
    intro front
    rw [treeAfter, visitEach_cons h, tree_visitEach]
  constructor
  · rintro ⟨front, last, e, hfiles, hvisit⟩
    cases front with
    | nil =>
      cases hfiles
      cases h.symm.trans hvisit
    | cons first front =>
      cases hfiles
      rw [hafter] at hvisit
      exact ⟨front, last, e, rfl, hvisit⟩
  · rintro ⟨front, last, e, rfl, hvisit⟩
    exact ⟨path :: front, last, e, rfl, by rwa [hafter]⟩

theorem stopsAfter_nil : j.StopsAfter mode t [] [] :=
  ⟨List.prefix_rfl, fun _ h _ => List.prefix_nil.1 h, .inr rfl⟩

theorem stopsAfter_of_failure (h : j.visit mode t path = .error e) (rest : List Path) :
    j.StopsAfter mode t (path :: rest) [path] := by
  refine ⟨⟨rest, rfl⟩, fun front hfront hends => ?_, .inl (endsInFailure_singleton h)⟩
  rcases List.prefix_cons_iff.1 hfront with rfl | ⟨more, rfl, hmore⟩
  · exact absurd hends not_endsInFailure_nil
  · rw [List.prefix_nil.1 hmore]

theorem StopsAfter.cons (h : j.visit mode t path = .ok (v, t'))
    (hrest : j.StopsAfter mode t' rest visited) :
    j.StopsAfter mode t (path :: rest) (path :: visited) := by
  refine ⟨List.cons_prefix_cons.2 ⟨rfl, hrest.front⟩, fun front hfront hends => ?_, ?_⟩
  · rcases List.prefix_cons_iff.1 hfront with rfl | ⟨more, rfl, hmore⟩
    · exact absurd hends not_endsInFailure_nil
    · rw [hrest.shortest more hmore ((endsInFailure_cons h).1 hends)]
  · exact hrest.whole.imp (endsInFailure_cons h).2 (congrArg _)

/-- A list has a front that ends in failure only if the files visited do. -/
theorem StopsAfter.endsInFailure_iff (h : j.StopsAfter mode t files visited) :
    j.EndsInFailure mode t visited ↔ ∃ front, front <+: files ∧ j.EndsInFailure mode t front := by
  constructor
  · exact fun hends => ⟨visited, h.front, hends⟩
  · rintro ⟨front, hfront, hends⟩
    rcases h.whole with hvisited | rfl
    · exact hvisited
    · rwa [← h.shortest front hfront hends]

theorem visitUntilFailure_cons (h : j.visit mode t path = .ok (v, t')) (report : Report)
    (rest : List Path) :
    j.visitUntilFailure mode (report, t) (path :: rest) =
      j.visitUntilFailure mode (report.add v, t') rest := by
  rw [visitUntilFailure, h]

theorem visitEach_of_failure (h : j.visit mode t path = .error e) (report : Report) :
    j.visitEach mode (report, t) [path] = (report.add (.failed (failureOf path e)), t) := by
  rw [visitEach, h]
  rfl

theorem visitUntilFailure_of_failure (h : j.visit mode t path = .error e) (report : Report)
    (rest : List Path) :
    j.visitUntilFailure mode (report, t) (path :: rest) =
      ((report.add (.failed (failureOf path e))).asStopped, t) := by
  rw [visitUntilFailure, h]
  rfl

/-- How a run up to the first failure can end, told by the run that passes over failures. -/
inductive Ends (j : Job) (mode : Mode) (done : Report × FileTree) (visited : List Path)
    (result : Report × FileTree) : Prop
  | whole : ¬j.EndsInFailure mode done.2 visited → result = j.visitEach mode done visited →
      Ends j mode done visited result
  | stopped (f : Failure) : j.EndsInFailure mode done.2 visited →
      result = ((j.visitEach mode done visited).1.asStopped, (j.visitEach mode done visited).2) →
      visited.getLast? = some f.path →
      (j.visitEach mode done visited).1.failures = done.1.failures ++ [f] →
      Ends j mode done visited result

/-- A run up to the first failure passes over none and stops at the end of what it visits. -/
theorem exists_stopsAfter (j : Job) (mode : Mode) (done : Report × FileTree) (files : List Path) :
    ∃ visited, j.StopsAfter mode done.2 files visited ∧
      j.visitUntilFailure mode done visited = j.visitUntilFailure mode done files ∧
      j.Ends mode done visited (j.visitUntilFailure mode done files) := by
  fun_induction j.visitUntilFailure mode done files with
  | case1 done => exact ⟨[], stopsAfter_nil, rfl, .whole not_endsInFailure_nil rfl⟩
  | case2 report t path rest v t' h ih =>
    obtain ⟨visited, hstops, hsame, hends⟩ := ih
    refine ⟨path :: visited, hstops.cons h, ?_, ?_⟩
    · rw [visitUntilFailure_cons h, hsame]
    · have hvisited := visitEach_cons h report visited
      cases hends with
      | whole hnone hresult =>
        exact .whole (mt (endsInFailure_cons h).1 hnone) (hresult.trans hvisited.symm)
      | stopped f hends hresult hlast hfailures =>
        refine .stopped f ((endsInFailure_cons h).2 hends) ?_ ?_ ?_
        · rw [hvisited, hresult]
        · rw [List.getLast?_cons, hlast]
          rfl
        · rw [hvisited, hfailures, failures_add_of_visit h report]
  | case3 report t path rest e h =>
    have hvisited := visitEach_of_failure h report
    refine ⟨[path], stopsAfter_of_failure h rest, visitUntilFailure_of_failure h report [],
      .stopped (failureOf path e) (endsInFailure_singleton h) ?_ ?_ ?_⟩
    · rw [hvisited]
      rfl
    · rw [path_failureOf]
      rfl
    · rw [hvisited]
      rfl

/-- Once a run has stopped, files behind those of its list make no difference. -/
theorem visitUntilFailure_append (done : Report × FileTree) (hdone : done.1.summary.aborted = false)
    (h : (j.visitUntilFailure mode done files).1.summary.aborted = true) (back : List Path) :
    j.visitUntilFailure mode done (files ++ back) = j.visitUntilFailure mode done files := by
  fun_induction j.visitUntilFailure mode done files with
  | case1 done => cases hdone.symm.trans h
  | case2 report t path rest v t' hvisit ih =>
    rw [List.cons_append, visitUntilFailure_cons hvisit]
    exact ih ((aborted_add report v).trans hdone) h
  | case3 report t path rest e hvisit =>
    rw [List.cons_append, visitUntilFailure_of_failure hvisit]
    rfl

/-- A visit finds the same text in both trees and leaves both with the same text. -/
theorem visit_of_readAlike (halike : t.ReadAlike t₁ (path :: rest))
    (h : j.visit mode t path = .ok (v, t')) :
    ∃ t₁', j.visit mode t₁ path = .ok (v, t₁') ∧ t'.ReadAlike t₁' rest := by
  cases comes_of_visit h with
  | settled hsettled =>
    exact ⟨t₁, visit_of_settled (hsettled.of_readText halike.head), halike.tail⟩
  | foreseen hmode hwants =>
    subst hmode
    have hwants₁ := hwants.of_readText halike.shape halike.head
    exact ⟨t₁, visit_dry hwants₁.readText hwants₁.insertions, halike.tail⟩
  | written hmode hwants hwritable =>
    subst hmode
    have hwants₁ := hwants.of_readText halike.shape halike.head
    obtain ⟨content, modified, hlookup, -⟩ := hwants.found
    obtain ⟨content₁, modified₁, hlookup₁, -⟩ := hwants₁.found
    exact ⟨_, visit_write hwants₁ (halike.shape.writable ▸ hwritable),
      halike.tail.putContent hlookup hlookup₁ _⟩

theorem visit_error_of_readAlike (halike : t.ReadAlike t₁ (path :: rest))
    (h : j.visit mode t path = .error e) : j.visit mode t₁ path = .error e := by
  cases comes_of_visit h with
  | unreadable hread => exact visit_unreadable (halike.head.trans hread)
  | refused hmode hwants hlocked =>
    subst hmode
    exact visit_locked (hwants.of_readText halike.shape halike.head)
      (halike.shape.writable ▸ hlocked)

/-- Only what the paths of a list lead to is read. -/
theorem report_visitUntilFailure_of_readAlike {done : Report × FileTree}
    (h : done.2.ReadAlike t₁ files) :
    (j.visitUntilFailure mode (done.1, t₁) files).1 = (j.visitUntilFailure mode done files).1 := by
  fun_induction j.visitUntilFailure mode done files generalizing t₁ with
  | case1 done => rfl
  | case2 report t path rest v t' hvisit ih =>
    obtain ⟨t₁', hvisit₁, halike⟩ := visit_of_readAlike h hvisit
    rw [visitUntilFailure_cons hvisit₁]
    exact ih halike
  | case3 report t path rest e hvisit =>
    rw [visitUntilFailure_of_failure (visit_error_of_readAlike h hvisit)]
    rfl

theorem aborted_of_endsInFailure {done : Report × FileTree}
    (h : j.EndsInFailure mode done.2 files) :
    (j.visitUntilFailure mode done files).1.summary.aborted = true := by
  obtain ⟨visited, hstops, -, hends⟩ := exists_stopsAfter j mode done files
  cases hends with
  | whole hnone => exact absurd (hstops.endsInFailure_iff.2 ⟨files, List.prefix_rfl, h⟩) hnone
  | stopped _ _ hresult =>
    rw [hresult]
    rfl

/-- Nothing is read behind the path at which the run stops. -/
theorem report_visitUntilFailure_of_stopsAfter {done : Report × FileTree}
    (hdone : done.1.summary.aborted = false) (hstops : j.StopsAfter mode done.2 files visited)
    (h : done.2.ReadAlike t₁ visited) :
    (j.visitUntilFailure mode (done.1, t₁) files).1 = (j.visitUntilFailure mode done files).1 := by
  have hreport : (j.visitUntilFailure mode (done.1, t₁) visited).1 =
      (j.visitUntilFailure mode done visited).1 := report_visitUntilFailure_of_readAlike h
  rcases hstops.whole with hends | rfl
  · obtain ⟨back, rfl⟩ := hstops.front
    have hstopped := aborted_of_endsInFailure hends
    have hstopped₁ := (congrArg (·.summary.aborted) hreport).trans hstopped
    rw [visitUntilFailure_append done hdone hstopped back,
      visitUntilFailure_append (done.1, t₁) hdone hstopped₁ back, hreport]
  · exact hreport

theorem filesProcessed_add (report : Report) (v : Visit) :
    (report.add v).summary.filesProcessed = report.summary.filesProcessed + 1 := by
  cases v <;> rfl

theorem filesProcessed_visitEach (done : Report × FileTree) (files : List Path) :
    (j.visitEach mode done files).1.summary.filesProcessed =
      done.1.summary.filesProcessed + .ofNat files.length := by
  have hcons : ∀ (n : UInt64) (path : Path) (rest : List Path),
      n + 1 + .ofNat rest.length = n + .ofNat (path :: rest).length := by
    intro n path rest
    rw [List.length_cons, UInt64.ofNat_add, UInt64.add_comm (.ofNat rest.length),
      UInt64.add_assoc]
    rfl
  fun_induction j.visitEach mode done files with
  | case1 done => simp
  | case2 report t path rest v t' h ih => rw [ih, filesProcessed_add, hcons]
  | case3 report t path rest e h ih => rw [ih, filesProcessed_add, hcons]

section Ended

variable {done result : Report × FileTree} (h : j.Ends mode done visited result)
include h

theorem Ends.tree_eq : result.2 = (j.visitEach mode done visited).2 := by
  cases h with
  | whole _ hresult | stopped _ _ hresult => rw [hresult]

/-- The reports differ at most in what they say about stopping. -/
theorem Ends.report_eq : result.1 = { (j.visitEach mode done visited).1 with
    summary := { (j.visitEach mode done visited).1.summary with
      aborted := result.1.summary.aborted } } := by
  cases h with
  | whole _ hresult => rw [hresult]
  | stopped _ _ hresult =>
    rw [hresult]
    rfl

theorem Ends.aborted_iff (hdone : done.1.summary.aborted = false) :
    result.1.summary.aborted = true ↔ j.EndsInFailure mode done.2 visited := by
  cases h with
  | whole hnone hresult => simp [hresult, hnone, (visitEach_spec j mode done visited).2, hdone]
  | stopped _ hends hresult => simp [hresult, hends, Report.asStopped]

theorem Ends.exists_failure (hends : j.EndsInFailure mode done.2 visited) :
    ∃ f, visited.getLast? = some f.path ∧ result.1.failures = done.1.failures ++ [f] := by
  cases h with
  | whole hnone => exact absurd hends hnone
  | stopped f _ hresult hlast hfailures =>
    rw [hresult]
    exact ⟨f, hlast, hfailures⟩

theorem Ends.filesProcessed_eq : result.1.summary.filesProcessed =
    done.1.summary.filesProcessed + .ofNat visited.length := by
  rw [h.report_eq]
  exact filesProcessed_visitEach done visited

end Ended

def finish (j : Job) (done : Report × FileTree) : Report × FileTree :=
  ((done.1.withFingerprint j.config.fingerprint).sorted, done.2)

theorem failures_finish {done : Report × FileTree} {f : Failure} (h : done.1.failures = [f]) :
    (j.finish done).1.failures = [f] := by
  change done.1.failures.mergeSort _ = [f]
  rw [h, List.mergeSort_singleton]

/--
A run that stops at a failure is the run that passes over failures, on the shortest front that ends
in one.
-/
theorem visitAll_failFast_exact (j : Job) (options : Options) (now : Time.Instant) (t : FileTree)
    (files : List Path) :
    let stopping := j.visitAll { options with failFast := true } now
    let passing := j.visitAll { options with failFast := false } now
    let done := stopping t files
    ∃ visited, j.StopsAfter options.mode t files visited ∧
      done.2 = (passing t visited).2 ∧
      done.1 = { (passing t visited).1 with
        summary := { (passing t visited).1.summary with aborted := done.1.summary.aborted } } ∧
      (done.1.summary.aborted = true ↔
        ∃ front, front <+: files ∧ j.EndsInFailure options.mode t front) ∧
      (done.1.summary.aborted = true →
        (∃ f, done.1.failures = [f] ∧ visited.getLast? = some f.path) ∧
        done.1.summary.filesProcessed = .ofNat visited.length ∧
        ∀ back, stopping t (visited ++ back) = done) ∧
      (∀ loc, (∀ p ∈ visited, t.locate p ≠ .ok loc) → done.2.lookup loc = t.lookup loc) ∧
      ∀ t', t.ReadAlike t' visited → (stopping t' files).1 = done.1 := by
  intro stopping passing done
  obtain ⟨visited, hstops, hsame, hends⟩ :=
    exists_stopsAfter j options.mode (Report.start options.mode now, t) files
  have htree : done.2 = (passing t visited).2 := hends.tree_eq
  have haborted : done.1.summary.aborted = true ↔ j.EndsInFailure options.mode t visited :=
    hends.aborted_iff rfl
  refine ⟨visited, hstops, htree, ?report, haborted.trans hstops.endsInFailure_iff,
    fun hstopped => ⟨?failures, ?filesProcessed, fun back => ?back⟩, fun loc hloc => ?written,
    fun t' halike => ?read⟩
  case report =>
    exact congrArg (fun r => (r.withFingerprint j.config.fingerprint).sorted) hends.report_eq
  case failures =>
    obtain ⟨f, hlast, hfailures⟩ := hends.exists_failure (haborted.1 hstopped)
    exact ⟨f, failures_finish hfailures, hlast⟩
  case filesProcessed => exact hends.filesProcessed_eq.trans (UInt64.zero_add _)
  case back =>
    have hstill := visitUntilFailure_append (Report.start options.mode now, t) rfl
      (aborted_of_endsInFailure (haborted.1 hstopped)) back
    exact congrArg (finish j) (hstill.trans hsame)
  case written =>
    rw [htree]
    exact lookup_visitAll j { options with failFast := false } now t hloc
  case read =>
    exact congrArg (fun r => (finish j (r, t)).1)
      (report_visitUntilFailure_of_stopsAfter rfl hstops halike)

end Job

end ExplicitApi
