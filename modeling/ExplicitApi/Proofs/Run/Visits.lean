import ExplicitApi.Proofs.FileTree.Writing
import ExplicitApi.Proofs.Qualify.FixedPoint
import ExplicitApi.Run.Cached

/-!
What visiting files does to a tree. Main statement: every file either stays as it is or is qualified
once, and a visited file that a run does not leave pending needs nothing afterwards.
-/
namespace ExplicitApi

/-- Whether a content is a text that needs no qualifier. -/
def Rules.Accepts (rules : Rules) (content : ByteArray) : Prop :=
  ∃ text, String.fromUTF8? content = some text ∧ (qualify rules text).insertions = []

theorem Rules.accepts_toUTF8 {rules : Rules} {text : String} :
    rules.Accepts text.toUTF8 ↔ (qualify rules text).insertions = [] := by
  constructor
  · rintro ⟨text', htext, h⟩
    rw [fromUTF8?_toUTF8] at htext
    cases htext
    exact h
  · exact fun h => ⟨text, fromUTF8?_toUTF8 text, h⟩

theorem Rules.accepts_qualify (rules : Rules) (text : String) :
    rules.Accepts (qualify rules text).text.toUTF8 :=
  accepts_toUTF8.2 (insertions_qualify_qualify rules text)

namespace FileTree

/-- Whether a file of `t` that needed a qualifier is qualified in `t'`. -/
def QualifiedAt (rules : Rules) (t t' : FileTree) (loc : Location) : Prop :=
  ∃ content modified text modified', t.lookup loc = some (.file content modified) ∧
    String.fromUTF8? content = some text ∧ ¬rules.Accepts content ∧
    t'.lookup loc = some (.file (qualify rules text).text.toUTF8 modified')

/-- Whether `t'` is `t` with some files qualified that may be written. -/
structure Advances (rules : Rules) (t t' : FileTree) : Prop where
  home : t'.home = t.home
  writable : t'.writable = t.writable
  lookup : ∀ loc, t'.lookup loc = t.lookup loc ∨ t.QualifiedAt rules t' loc
  locked : ∀ loc, t.writable loc = false → t'.lookup loc = t.lookup loc

def Settled (rules : Rules) (t : FileTree) (path : Path) : Prop :=
  ∃ content, t.read path = .ok content ∧ rules.Accepts content

/-- Whether a path leads to a text that needs a qualifier, which lies at a location. -/
structure Wants (rules : Rules) (t : FileTree) (path : Path) (loc : Location) (text : String) :
    Prop where
  located : t.locate path = .ok loc
  found : ∃ content modified, t.lookup loc = some (.file content modified) ∧
    String.fromUTF8? content = some text
  insertions : (qualify rules text).insertions ≠ []

variable {rules : Rules} {t t' t'' : FileTree}

theorem Advances.refl (rules : Rules) (t : FileTree) : t.Advances rules t :=
  ⟨rfl, rfl, fun _ => .inl rfl, fun _ _ => rfl⟩

theorem Advances.lookup_of_accepts (h : t.Advances rules t') {loc : Location} {content : ByteArray}
    {modified : Timestamp} (hlookup : t.lookup loc = some (.file content modified))
    (haccepts : rules.Accepts content) : t'.lookup loc = some (.file content modified) := by
  rcases h.lookup loc with heq | ⟨c, m, _, _, hold, _, hnot, _⟩
  · rw [heq, hlookup]
  · cases hlookup.symm.trans hold
    exact absurd haccepts hnot

/-- A file is qualified at most once, since a qualified text needs nothing more. -/
theorem Advances.trans (h : t.Advances rules t') (h' : t'.Advances rules t'') :
    t.Advances rules t'' := by
  refine ⟨h'.home.trans h.home, h'.writable.trans h.writable, fun loc => ?_, fun loc hloc => ?_⟩
  · rcases h.lookup loc with heq | ⟨c, m, text, m', hold, htext, hnot, hnew⟩
    · rcases h'.lookup loc with heq' | ⟨c, m, text, m', hold, htext, hnot, hnew⟩
      · exact .inl (heq'.trans heq)
      · exact .inr ⟨c, m, text, m', heq ▸ hold, htext, hnot, hnew⟩
    · have hkept := h'.lookup_of_accepts hnew (rules.accepts_qualify text)
      exact .inr ⟨c, m, text, m', hold, htext, hnot, hkept⟩
  · exact (h'.locked loc (h.writable ▸ hloc)).trans (h.locked loc hloc)

theorem Advances.sameShape (h : t.Advances rules t') : t.SameShape t' := by
  refine ⟨h.home, h.writable, fun loc => ?_⟩
  rcases h.lookup loc with heq | ⟨c, m, text, m', hold, _, _, hnew⟩
  · rw [heq]
  · rw [hold, hnew]
    rfl

theorem settled_iff {path : Path} :
    t.Settled rules path ↔
      ∃ text, t.readText path = .ok text ∧ (qualify rules text).insertions = [] := by
  constructor
  · rintro ⟨content, hread, text, htext, hnone⟩
    exact ⟨text, readText_eq_ok_iff.2 ⟨content, hread, htext⟩, hnone⟩
  · rintro ⟨text, hread, hnone⟩
    obtain ⟨content, hread, htext⟩ := readText_eq_ok_iff.1 hread
    exact ⟨content, hread, text, htext, hnone⟩

theorem Advances.settled (h : t.Advances rules t') {path : Path} (hpath : t.Settled rules path) :
    t'.Settled rules path := by
  obtain ⟨content, hread, haccepts⟩ := hpath
  obtain ⟨modified, hentry⟩ := read_eq_ok_iff.1 hread
  obtain ⟨loc, hloc, hlookup⟩ := entry_eq_ok_iff.1 hentry
  refine ⟨content, read_eq_ok_iff.2 ⟨modified, entry_eq_ok_iff.2 ⟨loc, ?_, ?_⟩⟩, haccepts⟩
  · rw [locate_congr h.sameShape, hloc]
  · exact h.lookup_of_accepts hlookup haccepts

theorem Wants.readText {path : Path} {loc : Location} {text : String}
    (h : t.Wants rules path loc text) : t.readText path = .ok text := by
  obtain ⟨content, modified, hlookup, htext⟩ := h.found
  exact readText_eq_ok_iff_lookup.2 ⟨loc, content, modified, h.located, hlookup, htext⟩

theorem exists_wants_iff {path : Path} {text : String} :
    (∃ loc, t.Wants rules path loc text) ↔
      t.readText path = .ok text ∧ (qualify rules text).insertions ≠ [] := by
  constructor
  · rintro ⟨loc, h⟩
    exact ⟨h.readText, h.insertions⟩
  · rintro ⟨hread, hsome⟩
    obtain ⟨loc, content, modified, hloc, hlookup, htext⟩ := readText_eq_ok_iff_lookup.1 hread
    exact ⟨loc, hloc, ⟨content, modified, hlookup, htext⟩, hsome⟩

theorem Wants.not_settled {path : Path} {loc : Location} {text : String}
    (h : t.Wants rules path loc text) : ¬t.Settled rules path := by
  intro hsettled
  obtain ⟨text', hread, hnone⟩ := settled_iff.1 hsettled
  cases h.readText.symm.trans hread
  exact h.insertions hnone

theorem Wants.of_readText {path : Path} {loc : Location} {text : String}
    (h : t.Wants rules path loc text) (hshape : t.SameShape t')
    (hread : t'.readText path = t.readText path) : t'.Wants rules path loc text := by
  obtain ⟨loc', hnew⟩ := exists_wants_iff.2 ⟨hread.trans h.readText, h.insertions⟩
  cases (locate_congr hshape path).symm.trans hnew.located |>.symm.trans h.located
  exact hnew

theorem Settled.of_readText {path : Path} (h : t.Settled rules path)
    (hread : t'.readText path = t.readText path) : t'.Settled rules path := by
  obtain ⟨text, hold, hnone⟩ := settled_iff.1 h
  exact settled_iff.2 ⟨text, hread.trans hold, hnone⟩

/-- A text that needed a qualifier may be qualified where it lies at any time, if that may be written. -/
theorem Advances.putContent (h : t.Advances rules t') {path : Path} {loc : Location} {text : String}
    (hwants : t.Wants rules path loc text) (hwritable : t.writable loc = true) :
    t.Advances rules (t'.putContent loc (qualify rules text).text.toUTF8) := by
  obtain ⟨content, modified, hlookup, htext⟩ := hwants.found
  obtain ⟨content', modified', hnow⟩ := h.sameShape.exists_file hlookup
  have hshape := h.sameShape.trans (sameShape_putContent hnow (qualify rules text).text.toUTF8)
  have hput := lookup_putContent hnow (qualify rules text).text.toUTF8
  refine ⟨hshape.home, hshape.writable, fun l => ?_, fun l hl => ?_⟩
  · rw [QualifiedAt, hput l]
    split
    · next hl =>
      refine .inr ⟨content, modified, text, _, hl ▸ hlookup, htext, ?_, rfl⟩
      rintro ⟨text', htext', hnone⟩
      cases htext.symm.trans htext'
      exact hwants.insertions hnone
    · exact h.lookup l
  · have hne : l ≠ loc := by
      rintro rfl
      exact Bool.noConfusion (hwritable.symm.trans hl)
    exact (hput l).trans ((if_neg hne).trans (h.locked l hl))

theorem Wants.settled_putContent {path : Path} {loc : Location} {text : String}
    (h : t.Wants rules path loc text) :
    (t.putContent loc (qualify rules text).text.toUTF8).Settled rules path := by
  obtain ⟨content, modified, hlookup, -⟩ := h.found
  have hnew := lookup_putContent hlookup (qualify rules text).text.toUTF8 loc
  rw [if_pos rfl] at hnew
  have hshape := sameShape_putContent hlookup (qualify rules text).text.toUTF8
  have hloc := (locate_congr hshape path).trans h.located
  exact ⟨_, read_eq_ok_iff.2 ⟨_, entry_eq_ok_iff.2 ⟨loc, hloc, hnew⟩⟩, rules.accepts_qualify text⟩

end FileTree

namespace Job

variable {j : Job} {mode : Mode} {t t' : FileTree} {path : Path}

/-- A file that needs no qualifier is left alone. -/
theorem visit_of_settled (h : t.Settled j.config.rules path) :
    j.visit mode t path = .ok (.unchanged, t) := by
  obtain ⟨text, hread, hnone⟩ := FileTree.settled_iff.1 h
  simp [visit, examine, hread, bind, Except.bind, apply, Qualified.isChanged, hnone]

theorem visit_dry {text : String} (hread : t.readText path = .ok text)
    (hsome : (qualify j.config.rules text).insertions ≠ []) :
    j.visit .dry t path =
      .ok (.modified ⟨path, (qualify j.config.rules text).insertions, false⟩, t) := by
  simp [visit, examine, hread, bind, Except.bind, apply, Qualified.isChanged, hsome, Mode.isDry]

/-- A text that needs a qualifier is written where it lies. -/
theorem visit_write {loc : Location} {text : String} (h : t.Wants j.config.rules path loc text)
    (hwritable : t.writable loc = true) :
    j.visit .write t path =
      .ok (.modified ⟨path, (qualify j.config.rules text).insertions, true⟩,
        t.putContent loc (qualify j.config.rules text).text.toUTF8) := by
  obtain ⟨content, modified, hlookup, -⟩ := h.found
  have hwrite := FileTree.write_of_file h.located hlookup hwritable
    (qualify j.config.rules text).text.toUTF8
  simp [visit, examine, h.readText, bind, Except.bind, apply, Qualified.isChanged, h.insertions,
    Mode.isDry, hwrite, -String.toUTF8_eq_toByteArray]

theorem visit_locked {loc : Location} {text : String} (h : t.Wants j.config.rules path loc text)
    (hlocked : t.writable loc = false) :
    j.visit .write t path = .error (.processing path (.unwritable .permissionDenied)) := by
  obtain ⟨content, modified, hlookup, -⟩ := h.found
  have hwrite := FileTree.write_of_locked h.located hlookup hlocked
    (qualify j.config.rules text).text.toUTF8
  simp [visit, examine, h.readText, bind, Except.bind, apply, Qualified.isChanged, h.insertions,
    Mode.isDry, hwrite, -String.toUTF8_eq_toByteArray]

theorem visit_unreadable {cause : IoError} (hread : t.readText path = .error cause) :
    j.visit mode t path = .error (.processing path (.unreadable cause)) := by
  simp [visit, examine, hread, bind, Except.bind]

inductive Comes (j : Job) (mode : Mode) (t : FileTree) (path : Path) :
    Except Error (Visit × FileTree) → Prop
  | unreadable {cause : IoError} (hread : t.readText path = .error cause) :
      Comes j mode t path (.error (.processing path (.unreadable cause)))
  | settled (hsettled : t.Settled j.config.rules path) : Comes j mode t path (.ok (.unchanged, t))
  | foreseen {loc : Location} {text : String} (hmode : mode = .dry)
      (hwants : t.Wants j.config.rules path loc text) :
      Comes j mode t path
        (.ok (.modified ⟨path, (qualify j.config.rules text).insertions, false⟩, t))
  | written {loc : Location} {text : String} (hmode : mode = .write)
      (hwants : t.Wants j.config.rules path loc text) (hwritable : t.writable loc = true) :
      Comes j mode t path
        (.ok (.modified ⟨path, (qualify j.config.rules text).insertions, true⟩,
          t.putContent loc (qualify j.config.rules text).text.toUTF8))
  | refused {loc : Location} {text : String} (hmode : mode = .write)
      (hwants : t.Wants j.config.rules path loc text) (hlocked : t.writable loc = false) :
      Comes j mode t path (.error (.processing path (.unwritable .permissionDenied)))

theorem comes_visit (j : Job) (mode : Mode) (t : FileTree) (path : Path) :
    j.Comes mode t path (j.visit mode t path) := by
  cases hread : t.readText path with
  | error cause =>
    rw [visit_unreadable hread]
    exact .unreadable hread
  | ok text =>
    by_cases hnone : (qualify j.config.rules text).insertions = []
    · have hsettled := FileTree.settled_iff.2 ⟨text, hread, hnone⟩
      rw [visit_of_settled hsettled]
      exact .settled hsettled
    · obtain ⟨loc, hwants⟩ := FileTree.exists_wants_iff.2 ⟨hread, hnone⟩
      cases mode with
      | dry =>
        rw [visit_dry hread hnone]
        exact .foreseen rfl hwants
      | write =>
        cases hwritable : t.writable loc with
        | true =>
          rw [visit_write hwants hwritable]
          exact .written rfl hwants hwritable
        | false =>
          rw [visit_locked hwants hwritable]
          exact .refused rfl hwants hwritable

theorem comes_of_visit {result : Except Error (Visit × FileTree)}
    (h : j.visit mode t path = result) : j.Comes mode t path result :=
  h ▸ comes_visit j mode t path

/-- What a visit that succeeds reports, and what it does. -/
theorem visit_spec {v : Visit} (h : j.visit mode t path = .ok (v, t')) :
    t.Advances j.config.rules t' ∧
      (v = .unchanged ∧ t'.Settled j.config.rules path ∨
        ∃ o, v = .modified o ∧ o.path = path ∧
          (o.written = true → t'.Settled j.config.rules path)) := by
  cases comes_of_visit h with
  | settled hsettled => exact ⟨.refl _ _, .inl ⟨rfl, hsettled⟩⟩
  | foreseen hmode hwants => exact ⟨.refl _ _, .inr ⟨_, rfl, rfl, nofun⟩⟩
  | written hmode hwants hwritable =>
    exact ⟨(FileTree.Advances.refl _ _).putContent hwants hwritable,
      .inr ⟨_, rfl, rfl, fun _ => hwants.settled_putContent⟩⟩

/--
Whether `files` were visited between `a` and `b`: each one needs nothing afterwards, or is pending.
-/
structure Covers (rules : Rules) (a b : Report × FileTree) (files : List Path) : Prop where
  advances : a.2.Advances rules b.2
  pending : ∀ p ∈ Runner.pending a.1, p ∈ Runner.pending b.1
  settled : ∀ p ∈ files, p ∈ Runner.pending b.1 ∨ b.2.Settled rules p

theorem Covers.refl (rules : Rules) (a : Report × FileTree) : Covers rules a a [] :=
  ⟨.refl _ _, fun _ hp => hp, nofun⟩

theorem Covers.trans {rules : Rules} {a b c : Report × FileTree} {files files' : List Path}
    (h : Covers rules a b files) (h' : Covers rules b c files') :
    Covers rules a c (files ++ files') := by
  refine ⟨h.advances.trans h'.advances, fun p hp => h'.pending p (h.pending p hp), fun p hp => ?_⟩
  rcases List.mem_append.1 hp with hp | hp
  · exact (h.settled p hp).imp (h'.pending p) h'.advances.settled
  · exact h'.settled p hp

theorem mem_pending_iff {report : Report} {p : Path} :
    p ∈ Runner.pending report ↔
      (∃ o ∈ report.files, o.written = false ∧ o.path = p) ∨ ∃ f ∈ report.failures, f.path = p := by
  simp [Runner.pending, and_assoc]

theorem mem_pending_add {report : Report} (v : Visit) {p : Path} (hp : p ∈ Runner.pending report) :
    p ∈ Runner.pending (report.add v) := by
  rw [mem_pending_iff] at hp ⊢
  cases v with
  | unchanged | cached => exact hp
  | modified o =>
    refine hp.imp_left ?_
    rintro ⟨o', ho', h⟩
    exact ⟨o', List.mem_append_left _ ho', h⟩
  | failed f =>
    refine hp.imp_right ?_
    rintro ⟨f', hf', h⟩
    exact ⟨f', List.mem_append_left _ hf', h⟩

theorem covers_of_visit {report : Report} {v : Visit} (h : j.visit mode t path = .ok (v, t')) :
    Covers j.config.rules (report, t) (report.add v, t') [path] := by
  obtain ⟨hadvances, hresult⟩ := visit_spec h
  refine ⟨hadvances, fun p hp => mem_pending_add v hp, fun p hp => ?_⟩
  cases List.mem_singleton.1 hp
  rcases hresult with ⟨_, hsettled⟩ | ⟨o, rfl, hpath, hwritten⟩
  · exact .inr hsettled
  · cases hw : o.written with
    | true => exact .inr (hwritten hw)
    | false => exact .inl (mem_pending_iff.2 (.inl ⟨o, by simp [Report.add], hw, hpath⟩))

theorem path_failureOf (path : Path) (e : Error) : (failureOf path e).path = path := by
  cases e <;> rfl

theorem covers_of_failure (rules : Rules) (report : Report) (t : FileTree) (path : Path)
    (e : Error) : Covers rules (report, t) (report.add (.failed (failureOf path e)), t) [path] := by
  refine ⟨.refl _ _, fun p hp => mem_pending_add _ hp, fun p hp => ?_⟩
  cases List.mem_singleton.1 hp
  refine .inl (mem_pending_iff.2 (.inr ⟨failureOf path e, ?_, path_failureOf path e⟩))
  simp [Report.add]

theorem aborted_add (report : Report) (v : Visit) :
    (report.add v).summary.aborted = report.summary.aborted := by
  cases v <;> rfl

theorem visitEach_spec (j : Job) (mode : Mode) (done : Report × FileTree) (files : List Path) :
    Covers j.config.rules done (j.visitEach mode done files) files ∧
      (j.visitEach mode done files).1.summary.aborted = done.1.summary.aborted := by
  fun_induction j.visitEach mode done files with
  | case1 done => exact ⟨.refl _ _, rfl⟩
  | case2 report t path rest v t' h ih =>
    exact ⟨(covers_of_visit h).trans ih.1, ih.2.trans (aborted_add report v)⟩
  | case3 report t path rest e h ih =>
    exact ⟨(covers_of_failure _ report t path e).trans ih.1, ih.2.trans (aborted_add report _)⟩

theorem failures_add_of_visit {v : Visit} (h : j.visit mode t path = .ok (v, t'))
    (report : Report) : (report.add v).failures = report.failures := by
  rcases (visit_spec h).2 with ⟨rfl, _⟩ | ⟨o, rfl, _⟩ <;> rfl

/-- A run that stops at a failure has visited the files up to it, and nothing failed before. -/
theorem visitUntilFailure_spec (j : Job) (mode : Mode) (done : Report × FileTree)
    (files : List Path) :
    (Covers j.config.rules done (j.visitUntilFailure mode done files) files ∧
        (j.visitUntilFailure mode done files).1.summary.aborted = done.1.summary.aborted) ∨
      ∃ front back f, files = front ++ f.path :: back ∧
        Covers j.config.rules done (j.visitUntilFailure mode done files) (front ++ [f.path]) ∧
        (j.visitUntilFailure mode done files).1.failures = done.1.failures ++ [f] ∧
        (j.visitUntilFailure mode done files).1.summary.aborted = true := by
  fun_induction j.visitUntilFailure mode done files with
  | case1 done => exact .inl ⟨.refl _ _, rfl⟩
  | case2 report t path rest v t' h ih =>
    have hcovers : Covers j.config.rules (report, t) (report.add v, t') [path] := covers_of_visit h
    rcases ih with ⟨hrest, haborted⟩ | ⟨front, back, f, hfiles, hrest, hfailures, haborted⟩
    · exact .inl ⟨hcovers.trans hrest, haborted.trans (aborted_add report v)⟩
    · refine .inr ⟨path :: front, back, f, by rw [hfiles]; rfl, hcovers.trans hrest, ?_, haborted⟩
      rw [hfailures, failures_add_of_visit h report]
  | case3 report t path rest e h =>
    have hcovers := covers_of_failure j.config.rules report t path e
    refine .inr ⟨[], rest, failureOf path e, by rw [path_failureOf]; rfl, ?_, rfl, rfl⟩
    rw [path_failureOf]
    exact ⟨hcovers.advances, hcovers.pending, hcovers.settled⟩

theorem Covers.sorted {rules : Rules} {a : Report × FileTree} {report : Report} {files : List Path}
    (h : Covers rules a (report, t) files) (fingerprint : String) :
    Covers rules a ((report.withFingerprint fingerprint).sorted, t) files := by
  have hpending : ∀ p, p ∈ Runner.pending (report.withFingerprint fingerprint).sorted ↔
      p ∈ Runner.pending report := by
    simp [mem_pending_iff, Report.sorted, Report.withFingerprint]
  exact ⟨h.advances, fun p hp => (hpending p).2 (h.pending p hp),
    fun p hp => (h.settled p hp).imp_left (hpending p).2⟩

theorem visited_of_not_aborted {report : Report} (h : report.summary.aborted = false)
    (files : List Path) : Runner.visited report files = files := by
  unfold Runner.visited
  split
  · simp [h]
  · rfl

theorem same_self (path : Path) : path.same path = true := beq_self_eq_true _

/-- No file behind the failure at which a run stopped counts as visited. -/
theorem mem_of_mem_visited {report : Report} {f : Failure} {front back : List Path}
    (hfailures : report.failures = [f]) (haborted : report.summary.aborted = true) {p : Path}
    (hp : p ∈ Runner.visited report (front ++ f.path :: back)) : p ∈ front ++ [f.path] := by
  have hfound : ∃ i ≤ front.length,
      (front ++ f.path :: back).findIdx? (fun path => path.same f.path) = some i := by
    clear hp
    induction front with
    | nil => exact ⟨0, Nat.le_refl 0, by simp [List.findIdx?_cons, same_self]⟩
    | cons q front ih =>
      obtain ⟨i, hi, hfind⟩ := ih
      by_cases hq : q.same f.path = true
      · exact ⟨0, Nat.zero_le _, by simp [List.findIdx?_cons, hq]⟩
      · exact ⟨i + 1, Nat.succ_le_succ hi, by simp [List.findIdx?_cons, hq, hfind]⟩
  obtain ⟨i, hi, hfind⟩ := hfound
  have htake : (front ++ f.path :: back).take (front.length + 1) = front ++ [f.path] :=
    List.take_length_add_append 1
  simp only [Runner.visited, hfailures, haborted, hfind, if_true] at hp
  rw [← htake]
  exact (List.take_sublist_take_left (by omega)).subset hp

/-- The files that a run has visited need nothing afterwards, or are pending. -/
theorem visitAll_spec (j : Job) (options : Options) (now : Time.Instant) (t : FileTree)
    (files : List Path) :
    Covers j.config.rules (Report.start options.mode now, t) (j.visitAll options now t files)
      (Runner.visited (j.visitAll options now t files).1 files) := by
  unfold visitAll
  cases options.failFast with
  | false =>
    obtain ⟨hcovers, haborted⟩ :=
      visitEach_spec j options.mode (Report.start options.mode now, t) files
    simp only [Bool.false_eq_true, if_false]
    rw [visited_of_not_aborted (by exact haborted)]
    exact hcovers.sorted _
  | true =>
    simp only [if_true]
    rcases visitUntilFailure_spec j options.mode
      (Report.start options.mode now, t) files with
      ⟨hcovers, haborted⟩ | ⟨front, back, f, hfiles, hcovers, hfailures, haborted⟩
    · rw [visited_of_not_aborted (by exact haborted)]
      exact hcovers.sorted _
    · have hsorted := hcovers.sorted j.config.fingerprint
      refine ⟨hsorted.advances, hsorted.pending, fun p hp => hsorted.settled p ?_⟩
      subst hfiles
      have hsingle : ((visitUntilFailure j options.mode (Report.start options.mode now, t)
          (front ++ f.path :: back)).1.withFingerprint j.config.fingerprint).sorted.failures =
            [f] := by
        simp only [Report.sorted, Report.withFingerprint, hfailures]
        exact List.mergeSort_singleton f
      exact mem_of_mem_visited hsingle haborted hp

end Job

end ExplicitApi
