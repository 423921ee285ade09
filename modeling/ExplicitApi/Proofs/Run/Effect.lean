import ExplicitApi.Proofs.Run.Visits

/-!
The exact effect of visiting files. Main statement: a run that writes qualifies the texts that its
paths lead to, changes nothing else, and leaves nothing to do for a second run.
-/
namespace ExplicitApi

theorem toUTF8_of_fromUTF8? {content : ByteArray} {text : String}
    (h : String.fromUTF8? content = some text) : text.toUTF8 = content := by
  unfold String.fromUTF8? at h
  split at h
  · cases h
    rfl
  · cases h

namespace FileTree

variable {rules : Rules} {t t' : FileTree} {path : Path} {loc : Location}

/-- Whether one of some paths leads to a file at a location, and what that file holds is a text. -/
def LeadToText (t : FileTree) (paths : List Path) (loc : Location) (text : String) : Prop :=
  (∃ path ∈ paths, t.locate path = .ok loc) ∧
    ∃ content modified, t.lookup loc = some (.file content modified) ∧
      String.fromUTF8? content = some text

/-- Qualifying files makes none readable or unreadable, nor does a reading fail otherwise. -/
theorem Advances.readText (h : t.Advances rules t') (path : Path) :
    t'.readText path = t.readText path ∨
      ∃ text, t.readText path = .ok text ∧
        t'.readText path = .ok (qualify rules text).text := by
  have hlocate := locate_congr h.sameShape path
  cases hloc : t.locate path with
  | error e =>
    left
    simp [FileTree.readText, read, entry, hlocate, hloc, bind, Except.bind]
  | ok loc =>
    rcases h.lookup loc with hlookup | ⟨content, modified, text, _, hold, htext, _, hnew⟩
    · left
      simp [FileTree.readText, read, entry, hlocate, hloc, bind, Except.bind, hlookup]
    · right
      refine ⟨text, readText_eq_ok_iff_lookup.2 ⟨loc, content, modified, hloc, hold, htext⟩, ?_⟩
      exact readText_eq_ok_iff_lookup.2
        ⟨loc, _, _, hlocate.trans hloc, hnew, fromUTF8?_toUTF8 _⟩

theorem Advances.wants (h : t.Advances rules t') {text : String} (hwants : t.Wants rules path loc text)
    (hlocked : t.writable loc = false) : t'.Wants rules path loc text :=
  ⟨(locate_congr h.sameShape path).trans hwants.located,
    (h.locked loc hlocked).symm ▸ hwants.found, hwants.insertions⟩

/-- A text that needs a qualifier still does, or has it. -/
theorem Advances.settled_or_wants (h : t.Advances rules t') {text : String}
    (hwants : t.Wants rules path loc text) :
    t'.Settled rules path ∨ t'.Wants rules path loc text := by
  have hloc := (locate_congr h.sameShape path).trans hwants.located
  obtain ⟨content, modified, hlookup, htext⟩ := hwants.found
  rcases h.lookup loc with heq | ⟨_, _, text', modified', hold, htext', -, hnew⟩
  · exact .inr ⟨hloc, ⟨content, modified, heq.trans hlookup, htext⟩, hwants.insertions⟩
  · exact .inl ⟨_, read_eq_ok_iff.2 ⟨modified', entry_eq_ok_iff.2 ⟨loc, hloc, hnew⟩⟩,
      rules.accepts_qualify text'⟩

end FileTree

namespace Job

variable {j : Job} {mode : Mode} {t t' : FileTree} {path : Path} {loc : Location}

/-- The failure of a visit, if it fails. -/
def failureAt? (j : Job) (mode : Mode) (t : FileTree) (path : Path) : Option Failure :=
  match j.visit mode t path with
  | .ok _ => none
  | .error e => some (failureOf path e)

theorem failureAt?_of_visit {v : Visit} (h : j.visit mode t path = .ok (v, t')) :
    j.failureAt? mode t path = none := by
  rw [failureAt?, h]

theorem failureAt?_of_visit_error {e : Error} (h : j.visit mode t path = .error e) :
    j.failureAt? mode t path = some (failureOf path e) := by
  rw [failureAt?, h]

theorem failureAt?_of_settled (h : t.Settled j.config.rules path) :
    j.failureAt? mode t path = none :=
  failureAt?_of_visit (visit_of_settled h)

/-- What a path fails on cannot be read or written, and no other visit changes that. -/
theorem failureAt?_of_advances (h : t.Advances j.config.rules t') (path : Path) :
    j.failureAt? mode t' path = j.failureAt? mode t path := by
  have hlocate := FileTree.locate_congr h.sameShape path
  cases hvisit : j.visit mode t path with
  | ok done =>
    rw [failureAt?_of_visit hvisit]
    cases comes_of_visit hvisit with
    | settled hsettled => exact failureAt?_of_settled (h.settled hsettled)
    | foreseen hmode hwants =>
      obtain ⟨text, hread⟩ : ∃ text, t'.readText path = .ok text := by
        rcases h.readText path with heq | ⟨_, -, hnew⟩
        · exact ⟨_, heq.trans hwants.readText⟩
        · exact ⟨_, hnew⟩
      subst hmode
      by_cases hnone : (qualify j.config.rules text).insertions = []
      · exact failureAt?_of_settled (FileTree.settled_iff.2 ⟨text, hread, hnone⟩)
      · exact failureAt?_of_visit (visit_dry hread hnone)
    | written hmode hwants hwritable =>
      subst hmode
      rcases h.settled_or_wants hwants with hsettled | hwants'
      · exact failureAt?_of_settled hsettled
      · exact failureAt?_of_visit (visit_write hwants' (h.writable ▸ hwritable))
  | error e =>
    rw [failureAt?_of_visit_error hvisit]
    refine failureAt?_of_visit_error ?_
    cases comes_of_visit hvisit with
    | unreadable hread =>
      rcases h.readText path with heq | ⟨_, hold, -⟩
      · exact visit_unreadable (heq.trans hread)
      · cases hread.symm.trans hold
    | refused hmode hwants hlocked =>
      subst hmode
      exact visit_locked (h.wants hwants hlocked) (h.writable ▸ hlocked)

theorem exists_readText_of_visit {v : Visit} (h : j.visit mode t path = .ok (v, t')) :
    ∃ text, t.readText path = .ok text := by
  cases comes_of_visit h with
  | settled hsettled =>
    obtain ⟨text, hread, -⟩ := FileTree.settled_iff.1 hsettled
    exact ⟨text, hread⟩
  | foreseen hmode hwants | written hmode hwants hwritable => exact ⟨_, hwants.readText⟩

/-- A visit touches only the place where its path leads. -/
theorem lookup_visit {v : Visit} (h : j.visit mode t path = .ok (v, t'))
    (hloc : t.locate path ≠ .ok loc) : t'.lookup loc = t.lookup loc := by
  cases comes_of_visit h with
  | settled | foreseen => rfl
  | written hmode hwants hwritable =>
    obtain ⟨content, modified, hlookup, -⟩ := hwants.found
    refine (FileTree.lookup_putContent hlookup _ _).trans (if_neg ?_)
    rintro rfl
    exact hloc hwants.located

theorem locate_visit {v : Visit} (h : j.visit mode t path = .ok (v, t')) (p : Path) :
    t'.locate p = t.locate p :=
  FileTree.locate_congr (visit_spec h).1.sameShape p

theorem lookup_visitEach (done : Report × FileTree) (files : List Path)
    (hloc : ∀ p ∈ files, done.2.locate p ≠ .ok loc) :
    (j.visitEach mode done files).2.lookup loc = done.2.lookup loc := by
  fun_induction j.visitEach mode done files with
  | case1 done => rfl
  | case2 report t path rest v t' h ih =>
    have hrest : ∀ p ∈ rest, t'.locate p ≠ .ok loc := by
      intro p hp
      rw [locate_visit h]
      exact hloc p (List.mem_cons_of_mem _ hp)
    rw [ih hrest]
    exact lookup_visit h (hloc path List.mem_cons_self)
  | case3 report t path rest e h ih =>
    exact ih fun p hp => hloc p (List.mem_cons_of_mem _ hp)

theorem lookup_visitUntilFailure (done : Report × FileTree) (files : List Path)
    (hloc : ∀ p ∈ files, done.2.locate p ≠ .ok loc) :
    (j.visitUntilFailure mode done files).2.lookup loc = done.2.lookup loc := by
  fun_induction j.visitUntilFailure mode done files with
  | case1 done => rfl
  | case2 report t path rest v t' h ih =>
    have hrest : ∀ p ∈ rest, t'.locate p ≠ .ok loc := by
      intro p hp
      rw [locate_visit h]
      exact hloc p (List.mem_cons_of_mem _ hp)
    rw [ih hrest]
    exact lookup_visit h (hloc path List.mem_cons_self)
  | case3 report t path rest e h => rfl

/-- A run touches only the places where its paths lead. -/
theorem lookup_visitAll (j : Job) (options : Options) (now : Time.Instant) (t : FileTree)
    {files : List Path} (hloc : ∀ p ∈ files, t.locate p ≠ .ok loc) :
    (j.visitAll options now t files).2.lookup loc = t.lookup loc := by
  unfold visitAll
  cases options.failFast with
  | false => exact lookup_visitEach (Report.start options.mode now, t) files hloc
  | true => exact lookup_visitUntilFailure (Report.start options.mode now, t) files hloc

/-- What fails is what would have failed before the run. -/
theorem failures_visitEach (j : Job) (mode : Mode) (done : Report × FileTree) (files : List Path) :
    (j.visitEach mode done files).1.failures =
      done.1.failures ++ files.filterMap (j.failureAt? mode done.2) := by
  fun_induction j.visitEach mode done files with
  | case1 done => exact (List.append_nil _).symm
  | case2 report t path rest v t' h ih =>
    have hrest : j.failureAt? mode t' = j.failureAt? mode t :=
      funext (failureAt?_of_advances (visit_spec h).1)
    rw [ih, List.filterMap_cons_none (failureAt?_of_visit h)]
    dsimp only
    rw [hrest, failures_add_of_visit h]
  | case3 report t path rest e h ih =>
    rw [ih, List.filterMap_cons_some (failureAt?_of_visit_error h), List.append_cons]
    rfl

theorem failures_visitAll (j : Job) (options : Options) (now : Time.Instant) (t : FileTree)
    (files : List Path) :
    (j.visitAll { options with failFast := false } now t files).1.failures =
      (files.filterMap (j.failureAt? options.mode t)).mergeSort
        fun a b => Report.precedes a.path b.path := by
  have hfailures := failures_visitEach j options.mode (Report.start options.mode now, t) files
  have hnone : (Report.start options.mode now).failures = [] := rfl
  rw [hnone, List.nil_append] at hfailures
  rw [← hfailures]
  rfl

/-- A text does not fail to be visited where it may be written. -/
theorem failureAt?_of_writable {text : String} (hread : t.readText path = .ok text)
    (hwritable : ∀ loc, t.locate path = .ok loc → t.writable loc = true) :
    j.failureAt? mode t path = none := by
  cases hvisit : j.visit mode t path with
  | ok done => exact failureAt?_of_visit hvisit
  | error e =>
    cases comes_of_visit hvisit with
    | unreadable hnone => cases hnone.symm.trans hread
    | refused hmode hwants hlocked =>
      exact Bool.noConfusion ((hwritable _ hwants.located).symm.trans hlocked)

theorem settled_of_visit_write {v : Visit} (h : j.visit .write t path = .ok (v, t')) :
    t'.Settled j.config.rules path := by
  cases comes_of_visit h with
  | settled hsettled => exact hsettled
  | foreseen hmode hwants => cases hmode
  | written hmode hwants hwritable => exact hwants.settled_putContent

/-- After a run that writes, each file that does not fail needs nothing. -/
theorem settled_visitEach (done : Report × FileTree) (files : List Path) {p : Path}
    (hp : p ∈ files) (hnone : j.failureAt? .write done.2 p = none) :
    (j.visitEach .write done files).2.Settled j.config.rules p := by
  fun_induction j.visitEach .write done files with
  | case1 done => cases hp
  | case2 report t path rest v t' h ih =>
    rcases List.mem_cons.1 hp with rfl | hrest
    · have hsettled := settled_of_visit_write h
      exact (visitEach_spec j .write (report.add v, t') rest).1.advances.settled hsettled
    · exact ih hrest ((failureAt?_of_advances (visit_spec h).1 p).trans hnone)
  | case3 report t path rest e h ih =>
    rcases List.mem_cons.1 hp with rfl | hrest
    · cases (failureAt?_of_visit_error h).symm.trans hnone
    · exact ih hrest hnone

/-- Where every file that does not fail needs nothing, a run does nothing. -/
theorem visitEach_of_settled (mode : Mode) (done : Report × FileTree) (files : List Path)
    (h : ∀ p ∈ files, j.failureAt? mode done.2 p = none → done.2.Settled j.config.rules p) :
    (j.visitEach mode done files).2 = done.2 ∧
      (j.visitEach mode done files).1.files = done.1.files ∧
      (j.visitEach mode done files).1.summary.filesModified = done.1.summary.filesModified ∧
      (j.visitEach mode done files).1.summary.declarationsQualified =
        done.1.summary.declarationsQualified := by
  fun_induction j.visitEach mode done files with
  | case1 done => exact ⟨rfl, rfl, rfl, rfl⟩
  | case2 report t path rest v t' hvisit ih =>
    have hsettled := h path List.mem_cons_self (failureAt?_of_visit hvisit)
    cases (visit_of_settled hsettled).symm.trans hvisit
    exact ih fun p hp => h p (List.mem_cons_of_mem _ hp)
  | case3 report t path rest e hvisit ih =>
    exact ih fun p hp => h p (List.mem_cons_of_mem _ hp)

/-- A file that held a text and needs nothing afterwards holds that text qualified. -/
theorem lookup_of_settled {rules : Rules} {content : ByteArray} {modified : Timestamp}
    {text : String} (h : t.Advances rules t') (hloc : t.locate path = .ok loc)
    (hlookup : t.lookup loc = some (.file content modified))
    (htext : String.fromUTF8? content = some text) (hsettled : t'.Settled rules path) :
    ∃ modified, t'.lookup loc = some (.file (qualify rules text).text.toUTF8 modified) := by
  rcases h.lookup loc with heq | ⟨content', _, text', modified', hold, htext', _, hnew⟩
  · obtain ⟨text', hread', hnone⟩ := FileTree.settled_iff.1 hsettled
    obtain ⟨loc', content', modified', hloc', hlookup', htext'⟩ :=
      FileTree.readText_eq_ok_iff_lookup.1 hread'
    rw [FileTree.locate_congr h.sameShape] at hloc'
    cases hloc.symm.trans hloc'
    cases (heq.trans hlookup).symm.trans hlookup'
    cases htext.symm.trans htext'
    rw [insertions_eq_nil_iff.1 hnone, toUTF8_of_fromUTF8? htext]
    exact ⟨modified, hlookup'⟩
  · cases hlookup.symm.trans hold
    cases htext.symm.trans htext'
    exact ⟨modified', hnew⟩

/-- A run that writes qualifies each text that one of its paths leads to and that may be written. -/
theorem lookup_visitEach_of_leadToText (j : Job) (report : Report) {files : List Path}
    {text : String} (h : t.LeadToText files loc text) (hwritable : t.writable loc = true) :
    ∃ modified, (j.visitEach .write (report, t) files).2.lookup loc =
      some (.file (qualify j.config.rules text).text.toUTF8 modified) := by
  obtain ⟨⟨p, hp, hloc⟩, content, modified, hlookup, htext⟩ := h
  have hread := FileTree.readText_eq_ok_iff_lookup.2 ⟨loc, content, modified, hloc, hlookup, htext⟩
  have hnone : j.failureAt? .write t p = none := by
    refine failureAt?_of_writable hread fun l hl => ?_
    cases hloc.symm.trans hl
    exact hwritable
  exact lookup_of_settled (visitEach_spec j .write (report, t) files).1.advances hloc hlookup htext
    (settled_visitEach (report, t) files hp hnone)

/-- A run leaves alone what none of its paths leads to, what is no text, and what is locked. -/
theorem lookup_visitEach_of_not_leadToText (done : Report × FileTree) {files : List Path}
    (h : ∀ text, done.2.LeadToText files loc text → done.2.writable loc = false) :
    (j.visitEach mode done files).2.lookup loc = done.2.lookup loc := by
  by_cases hlisted : ∃ p ∈ files, done.2.locate p = .ok loc
  · have hadvances := (visitEach_spec j mode done files).1.advances
    rcases hadvances.lookup loc with heq | ⟨content, modified, text, _, hlookup, htext, _⟩
    · exact heq
    · exact hadvances.locked loc (h text ⟨hlisted, content, modified, hlookup, htext⟩)
  · exact lookup_visitEach done files fun p hp hloc => hlisted ⟨p, hp, hloc⟩

/--
A run that writes qualifies each text that it may write and leaves the rest; a second run changes
nothing.
-/
theorem visitAll_write_exact (j : Job) (options : Options) (now now' : Time.Instant) (t : FileTree)
    (files : List Path) :
    let done := j.visitAll { options with mode := .write, failFast := false } now t files
    let again := j.visitAll { options with mode := .write, failFast := false } now' done.2 files
    (∀ loc text, t.LeadToText files loc text → t.writable loc = true →
      ∃ modified, done.2.lookup loc =
        some (.file (qualify j.config.rules text).text.toUTF8 modified)) ∧
    (∀ loc, (∀ text, t.LeadToText files loc text → t.writable loc = false) →
      done.2.lookup loc = t.lookup loc) ∧
    again.2 = done.2 ∧ again.1.files = [] ∧ again.1.summary.filesModified = 0 ∧
    again.1.summary.declarationsQualified = 0 ∧ again.1.failures = done.1.failures := by
  intro done again
  have hadvances : t.Advances j.config.rules done.2 :=
    (visitEach_spec j .write (Report.start .write now, t) files).1.advances
  have hsame : j.failureAt? .write done.2 = j.failureAt? .write t :=
    funext (failureAt?_of_advances hadvances)
  obtain ⟨htree, hfiles, hmodified, hqualified⟩ :=
    visitEach_of_settled .write (Report.start .write now', done.2) files fun p hp hnone =>
      settled_visitEach (Report.start .write now, t) files hp
        ((congrFun hsame p).symm.trans hnone)
  refine ⟨fun loc text htext hwritable => ?_, fun loc hlocked => ?_, htree, ?_, hmodified,
    hqualified, ?_⟩
  · exact lookup_visitEach_of_leadToText j (Report.start .write now) htext hwritable
  · exact lookup_visitEach_of_not_leadToText (Report.start .write now, t) hlocked
  · have hsorted : again.1.files = (j.visitEach .write (Report.start .write now', done.2)
        files).1.files.mergeSort fun a b => Report.precedes a.path b.path := rfl
    rw [hsorted, hfiles]
    exact List.mergeSort_nil
  · have hdone := failures_visitAll j { options with mode := .write } now t files
    have hagain := failures_visitAll j { options with mode := .write } now' done.2 files
    rw [hsame] at hagain
    exact hagain.trans hdone.symm

end Job

end ExplicitApi
