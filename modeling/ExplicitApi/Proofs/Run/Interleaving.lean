import ExplicitApi.Proofs.Run.Outcomes
import Mathlib.Logic.Relation

/-!
Runs that visit the files of a list at once, each in a step that reads and a step that writes, in
whatever order these steps come. Main statement: in the end every file has the content that visiting
one after another gives it.
-/
namespace ExplicitApi

/-- How far a run has come with one path. -/
inductive Stage where
  | waiting
  /-- The path was read, and this is still to be written. -/
  | holding (q : Qualified)
  | finished (result : Visit)

structure Task where
  path : Path
  stage : Stage

/-- An entry without the time of a file. -/
def Entry.content : Entry → FileTree.Content
  | .file content _ => .bytes content
  | .directory => .directory
  | .link target => .link target

/-- Whether two trees differ in the times of files alone. -/
def FileTree.SameContents (t t' : FileTree) : Prop :=
  t'.home = t.home ∧ ∀ loc, (t'.lookup loc).map Entry.content = (t.lookup loc).map Entry.content

namespace Job

/-- What the step that reads leaves: a text to write, or the result if there is none. -/
def readStep (j : Job) (mode : Mode) (t : FileTree) (path : Path) : Stage :=
  match j.examine t path with
  | .ok q =>
    if !q.isChanged then .finished .unchanged
    else if mode.isDry then .finished (.modified ⟨path, q.insertions, false⟩)
    else .holding q
  | .error e => .finished (.failed (failureOf path e))

/-- What a visit, or its last step, comes to. -/
def finishedWith (t : FileTree) (path : Path) :
    Except Error (Visit × FileTree) → Stage × FileTree
  | .ok (result, t) => (.finished result, t)
  | .error e => (.finished (.failed (failureOf path e)), t)

def writeStep (mode : Mode) (t : FileTree) (path : Path) (q : Qualified) : Stage × FileTree :=
  finishedWith t path (apply mode t path q)

/-- One step of one task, whichever it is. -/
inductive Step (j : Job) (mode : Mode) : FileTree × List Task → FileTree × List Task → Prop
  | read (t : FileTree) (front back : List Task) (path : Path) :
      Step j mode (t, front ++ ⟨path, .waiting⟩ :: back)
        (t, front ++ ⟨path, j.readStep mode t path⟩ :: back)
  | write (t : FileTree) (front back : List Task) (path : Path) (q : Qualified) :
      Step j mode (t, front ++ ⟨path, .holding q⟩ :: back)
        ((writeStep mode t path q).2, front ++ ⟨path, (writeStep mode t path q).1⟩ :: back)

def waitingFor (files : List Path) : List Task := files.map (⟨·, .waiting⟩)

/-- Whether a run over a list of files can end in a tree with these results, in list order. -/
def Interleaves (j : Job) (mode : Mode) (t : FileTree) (files : List Path) (t' : FileTree)
    (results : List Visit) : Prop :=
  ∃ tasks, Relation.ReflTransGen (j.Step mode) (t, waitingFor files) (t', tasks) ∧
    tasks.map (·.stage) = results.map .finished

def reportOn (j : Job) (mode : Mode) (now : Time.Instant) (results : List Visit) : Report :=
  ((results.foldl Report.add (Report.start mode now)).withFingerprint j.config.fingerprint).sorted

variable {j : Job} {mode : Mode} {t now : FileTree} {path : Path}

/-- A visit is one step that reads and, when something is to be written, one that writes. -/
theorem finishedWith_visit (j : Job) (mode : Mode) (t : FileTree) (path : Path) :
    finishedWith t path (j.visit mode t path) =
      match j.readStep mode t path with
      | .holding q => writeStep mode t path q
      | stage => (stage, t) := by
  unfold visit readStep writeStep apply
  cases j.examine t path with
  | error e => rfl
  | ok q =>
    cases hchanged : q.isChanged <;> cases mode <;>
      simp [hchanged, Mode.isDry, bind, Except.bind, finishedWith]

theorem readStep_of_wants {loc : Location} {text : String}
    (h : t.Wants j.config.rules path loc text) :
    j.readStep .write t path = .holding (qualify j.config.rules text) := by
  simp [readStep, examine, h.readText, Qualified.isChanged, h.insertions, Mode.isDry]

/-- A path whose text is to be written is held; of all others the result is known. -/
theorem readStep_cases (j : Job) (mode : Mode) (t : FileTree) (path : Path) :
    j.readStep mode t path = .finished (j.outcome mode t path) ∧
        (mode = .write → j.failureAt? mode t path = none → t.Settled j.config.rules path) ∨
      mode = .write ∧ ∃ loc text, t.Wants j.config.rules path loc text ∧
        j.readStep mode t path = .holding (qualify j.config.rules text) := by
  cases hcomes : j.visit mode t path with
  | error e =>
    cases comes_of_visit hcomes with
    | unreadable hread =>
      refine .inl ⟨?_, fun _ hnone => ?_⟩
      · simp [readStep, examine, hread, outcome_of_visit_error hcomes]
      · cases (failureAt?_of_visit_error hcomes).symm.trans hnone
    | refused hmode hwants =>
      subst hmode
      exact .inr ⟨rfl, _, _, hwants, readStep_of_wants hwants⟩
  | ok done =>
    cases comes_of_visit hcomes with
    | settled hsettled =>
      obtain ⟨text, hread, hnone⟩ := FileTree.settled_iff.1 hsettled
      refine .inl ⟨?_, fun _ _ => hsettled⟩
      simp [readStep, examine, hread, Qualified.isChanged, hnone, outcome_of_settled hsettled]
    | foreseen hmode hwants =>
      subst hmode
      refine .inl ⟨?_, fun hmode => ?_⟩
      · simp [readStep, examine, hwants.readText, Qualified.isChanged, hwants.insertions,
          Mode.isDry, outcome_of_visit hcomes]
      · cases hmode
    | written hmode hwants =>
      subst hmode
      exact .inr ⟨rfl, _, _, hwants, readStep_of_wants hwants⟩

/-- Whoever has read a text that needed a qualifier read it before anyone wrote it. -/
theorem wants_of_advances {rules : Rules} (h : t.Advances rules now) {loc : Location}
    {text : String} (hwants : now.Wants rules path loc text) : t.Wants rules path loc text := by
  have hloc := (FileTree.locate_congr h.sameShape path).symm.trans hwants.located
  obtain ⟨content, modified, hlookup, htext⟩ := hwants.found
  rcases h.lookup loc with heq | ⟨_, _, before, _, _, -, -, hnew⟩
  · exact ⟨hloc, ⟨content, modified, heq ▸ hlookup, htext⟩, hwants.insertions⟩
  · cases hlookup.symm.trans hnew
    rw [fromUTF8?_toUTF8] at htext
    cases htext
    exact absurd (insertions_qualify_qualify rules before) hwants.insertions

/-- A path is reported on as before the run, or whoever has written its file left nothing to do. -/
theorem outcome_of_advances (h : t.Advances j.config.rules now) (hdry : mode = .dry → now = t)
    (path : Path) :
    j.outcome mode now path = j.outcome mode t path ∨
      mode = .write ∧ j.outcome mode now path = .unchanged ∧
        ∃ o, j.outcome mode t path = .modified o := by
  cases mode with
  | dry => exact .inl (by rw [hdry rfl])
  | write =>
    rcases j.outcome_cases .write t path with
      ⟨hsettled, heq⟩ | ⟨loc, text, hwants, hwritable, heq⟩ | ⟨f, -, heq, hfailure⟩
    · rw [heq]
      exact .inl (outcome_of_settled (h.settled hsettled))
    · rcases h.settled_or_wants hwants with hsettled | hnow
      · exact .inr ⟨rfl, outcome_of_settled hsettled, _, heq⟩
      · rw [heq]
        exact .inl (outcome_of_wants hnow fun hmode => h.writable ▸ hwritable hmode)
    · rw [heq]
      exact .inl (outcome_of_failureAt? ((failureAt?_of_advances h path).trans hfailure))

/-- What was read before anyone wrote can be written at any time, and is what anyone else writes. -/
theorem writeStep_of_advances {loc : Location} {text : String}
    (h : t.Advances j.config.rules now) (hwants : t.Wants j.config.rules path loc text) :
    writeStep .write now path (qualify j.config.rules text) =
      (.finished (j.outcome .write t path),
        if t.writable loc then now.putContent loc (qualify j.config.rules text).text.toUTF8
        else now) := by
  obtain ⟨content, modified, hlookup, -⟩ := hwants.found
  obtain ⟨content', modified', hnow⟩ := h.sameShape.exists_file hlookup
  have hloc := (FileTree.locate_congr h.sameShape path).trans hwants.located
  cases hwritable : t.writable loc with
  | true =>
    have hwrite := FileTree.write_of_file hloc hnow (h.writable ▸ hwritable)
      (qualify j.config.rules text).text.toUTF8
    simp [writeStep, apply, Qualified.isChanged, hwants.insertions, Mode.isDry, hwrite, finishedWith,
      outcome_of_visit (visit_write hwants hwritable), -String.toUTF8_eq_toByteArray]
  | false =>
    have hwrite := FileTree.write_of_locked hloc hnow (h.writable ▸ hwritable)
      (qualify j.config.rules text).text.toUTF8
    simp [writeStep, apply, Qualified.isChanged, hwants.insertions, Mode.isDry, hwrite, finishedWith,
      outcome_of_visit_error (visit_locked hwants hwritable), -String.toUTF8_eq_toByteArray]

/-- Writing a text that needs nothing leaves nothing in need. -/
theorem settled_putContent {rules : Rules} {loc : Location} {content b : ByteArray}
    {modified : Timestamp} (hlookup : t.lookup loc = some (.file content modified))
    (haccepts : rules.Accepts b) {p : Path}
    (h : t.Settled rules p ∨ t.locate p = .ok loc) : (t.putContent loc b).Settled rules p := by
  have hput := FileTree.lookup_putContent hlookup b
  obtain ⟨l, c, m, hloc, hnew, hc⟩ : ∃ l c m, t.locate p = .ok l ∧
      (t.putContent loc b).lookup l = some (.file c m) ∧ rules.Accepts c := by
    rcases h with ⟨c, hread, hc⟩ | hloc
    · obtain ⟨m, hentry⟩ := FileTree.read_eq_ok_iff.1 hread
      obtain ⟨l, hloc, hold⟩ := FileTree.entry_eq_ok_iff.1 hentry
      by_cases hl : l = loc
      · exact ⟨l, b, _, hloc, by rw [hput, if_pos hl], haccepts⟩
      · exact ⟨l, c, m, hloc, by rw [hput, if_neg hl, hold], hc⟩
    · exact ⟨loc, b, _, hloc, by rw [hput, if_pos rfl], haccepts⟩
  rw [← FileTree.locate_congr (FileTree.sameShape_putContent hlookup b) p] at hloc
  exact ⟨c, FileTree.read_eq_ok_iff.2 ⟨m, FileTree.entry_eq_ok_iff.2 ⟨l, hloc, hnew⟩⟩, hc⟩

/-- What holds of one task of a run that began with `t`, when the tree is `now`. -/
def Sound (j : Job) (mode : Mode) (t now : FileTree) (task : Task) : Prop :=
  match task.stage with
  | .waiting => True
  | .holding q => mode = .write ∧ ∃ loc text, t.Wants j.config.rules task.path loc text ∧
      q = qualify j.config.rules text
  | .finished v =>
      -- whoever comes after another one who has written finds nothing to do
      (v = j.outcome mode t task.path ∨
        mode = .write ∧ v = .unchanged ∧ ∃ o, j.outcome mode t task.path = .modified o) ∧
      (mode = .write → j.failureAt? mode t task.path = none →
        now.Settled j.config.rules task.path)

/-- What holds of a task still holds when another one has written a text that needs nothing. -/
theorem Sound.putContent {task : Task} {loc : Location} {content b : ByteArray}
    {modified : Timestamp} (h : j.Sound mode t now task)
    (hlookup : now.lookup loc = some (.file content modified))
    (haccepts : j.config.rules.Accepts b) : j.Sound mode t (now.putContent loc b) task := by
  unfold Sound at h ⊢
  split at h
  · trivial
  · exact h
  · exact ⟨h.1, fun hmode hnone => settled_putContent hlookup haccepts (.inl (h.2 hmode hnone))⟩

/-- What holds throughout a run that began with `t`, however its steps come. -/
structure Progress (j : Job) (mode : Mode) (t : FileTree) (state : FileTree × List Task) :
    Prop where
  advances : t.Advances j.config.rules state.1
  dry : mode = .dry → state.1 = t
  /-- Only the places where the paths lead are touched. -/
  elsewhere : ∀ loc, (∀ task ∈ state.2, t.locate task.path ≠ .ok loc) →
    state.1.lookup loc = t.lookup loc
  sound : ∀ task ∈ state.2, j.Sound mode t state.1 task

theorem progress_waitingFor (j : Job) (mode : Mode) (t : FileTree) (files : List Path) :
    j.Progress mode t (t, waitingFor files) := by
  refine ⟨.refl _ _, fun _ => rfl, fun _ _ => rfl, fun task htask => ?_⟩
  obtain ⟨p, -, rfl⟩ := List.mem_map.1 htask
  trivial

theorem sound_readStep (h : t.Advances j.config.rules now) (hdry : mode = .dry → now = t) :
    j.Sound mode t now ⟨path, j.readStep mode now path⟩ := by
  rcases readStep_cases j mode now path with ⟨hfinished, hsettled⟩ | ⟨hmode, loc, text, hwants, hq⟩
  · rw [hfinished]
    refine ⟨outcome_of_advances h hdry path, fun hmode hnone => ?_⟩
    exact hsettled hmode ((failureAt?_of_advances h path).trans hnone)
  · rw [hq]
    exact ⟨hmode, loc, text, wants_of_advances h hwants, rfl⟩

theorem mem_middle {α : Type} {front back : List α} {a b : α} :
    a ∈ front ++ b :: back ↔ a = b ∨ a ∈ front ++ back :=
  List.perm_middle.mem_iff.trans List.mem_cons

/-- One step of whatever task keeps all this. -/
theorem Progress.step {state state' : FileTree × List Task} (h : j.Progress mode t state)
    (hstep : j.Step mode state state') : j.Progress mode t state' := by
  obtain ⟨hadvances, hdry, helsewhere, hsound⟩ := h
  cases hstep with
  | read now front back path =>
    simp only [mem_middle, forall_eq_or_imp] at helsewhere hsound
    refine ⟨hadvances, hdry, ?_, ?_⟩
    · simpa only [mem_middle, forall_eq_or_imp] using helsewhere
    · simp only [mem_middle, forall_eq_or_imp]
      exact ⟨sound_readStep hadvances hdry, hsound.2⟩
  | write now front back path q =>
    simp only [mem_middle, forall_eq_or_imp] at helsewhere hsound
    obtain ⟨⟨rfl, loc, text, hwants, rfl⟩, hothers⟩ := hsound
    rw [writeStep_of_advances hadvances hwants]
    cases hwritable : t.writable loc with
    | false =>
      simp only [Bool.false_eq_true, if_false]
      refine ⟨hadvances, nofun, ?_, ?_⟩
      · simpa only [mem_middle, forall_eq_or_imp] using helsewhere
      · simp only [mem_middle, forall_eq_or_imp]
        refine ⟨⟨.inl rfl, fun _ hnone => ?_⟩, hothers⟩
        cases (failureAt?_of_visit_error (visit_locked hwants hwritable)).symm.trans hnone
    | true =>
      simp only [if_true]
      obtain ⟨content, modified, hlookup, -⟩ := hwants.found
      obtain ⟨content', modified', hnow⟩ := hadvances.sameShape.exists_file hlookup
      have hlocate := (FileTree.locate_congr hadvances.sameShape path).trans hwants.located
      have haccepts := j.config.rules.accepts_qualify text
      refine ⟨hadvances.putContent hwants hwritable, nofun, ?_, ?_⟩
      · simp only [mem_middle, forall_eq_or_imp]
        intro l hl
        have hne : l ≠ loc := fun heq => hl.1 (heq ▸ hwants.located)
        exact (FileTree.lookup_putContent hnow _ l).trans ((if_neg hne).trans (helsewhere l hl))
      · simp only [mem_middle, forall_eq_or_imp]
        refine ⟨⟨.inl rfl, fun _ _ => settled_putContent hnow haccepts (.inr hlocate)⟩, ?_⟩
        exact fun task htask => (hothers task htask).putContent hnow haccepts

theorem Progress.run {state state' : FileTree × List Task} (h : j.Progress mode t state)
    (hrun : Relation.ReflTransGen (j.Step mode) state state') : j.Progress mode t state' := by
  induction hrun with
  | refl => exact h
  | tail _ hstep ih => exact ih.step hstep

theorem paths_step {state state' : FileTree × List Task} (h : j.Step mode state state') :
    state'.2.map (·.path) = state.2.map (·.path) := by
  cases h <;> simp

theorem paths_run {state state' : FileTree × List Task}
    (h : Relation.ReflTransGen (j.Step mode) state state') :
    state'.2.map (·.path) = state.2.map (·.path) := by
  induction h with
  | refl => rfl
  | tail _ hstep ih => exact (paths_step hstep).trans ih

theorem paths_waitingFor (files : List Path) : (waitingFor files).map (·.path) = files := by
  simp [waitingFor, Function.comp_def]

/-- The end of a run, in whatever order its steps came. -/
theorem Interleaves.progress {files : List Path} {t' : FileTree} {results : List Visit}
    (h : j.Interleaves mode t files t' results) :
    t.Advances j.config.rules t' ∧ (mode = .dry → t' = t) ∧
      (∀ loc, (∀ p ∈ files, t.locate p ≠ .ok loc) → t'.lookup loc = t.lookup loc) ∧
      (mode = .write → ∀ p ∈ files, j.failureAt? mode t p = none →
        t'.Settled j.config.rules p) := by
  obtain ⟨tasks, hrun, hstages⟩ := h
  obtain ⟨hadvances, hdry, helsewhere, hsound⟩ := (progress_waitingFor j mode t files).run hrun
  have hpaths : tasks.map (·.path) = files := (paths_run hrun).trans (paths_waitingFor files)
  refine ⟨hadvances, hdry, fun loc hloc => helsewhere loc fun task htask => ?_,
    fun hmode p hp hnone => ?_⟩
  · exact hloc _ (hpaths ▸ List.mem_map_of_mem htask)
  · obtain ⟨task, htask, rfl⟩ := List.mem_map.1 (hpaths ▸ hp)
    have hfinished : task.stage ∈ results.map Stage.finished :=
      hstages ▸ List.mem_map_of_mem htask
    obtain ⟨v, -, hv⟩ := List.mem_map.1 hfinished
    have hold := hsound task htask
    unfold Sound at hold
    rw [← hv] at hold
    exact hold.2 hmode hnone

/-- In the end every file has the content that visiting one after another gives it. -/
theorem Interleaves.sameContents {files : List Path} {t' : FileTree} {results : List Visit}
    (h : j.Interleaves mode t files t' results) (report : Report) :
    (j.visitEach mode (report, t) files).2.SameContents t' := by
  obtain ⟨hadvances, hdry, helsewhere, hsettled⟩ := h.progress
  have halone := (visitEach_spec j mode (report, t) files).1.advances
  refine ⟨hadvances.home.trans halone.home.symm, fun loc => ?_⟩
  cases mode with
  | dry => rw [hdry rfl, tree_visitEach_dry]
  | write =>
    by_cases htext : ∃ text, t.LeadToText files loc text ∧ t.writable loc = true
    · obtain ⟨text, hlead, hwritable⟩ := htext
      obtain ⟨modified, hone⟩ := lookup_visitEach_of_leadToText j report hlead hwritable
      obtain ⟨⟨p, hp, hloc⟩, content, modified', hlookup, htext⟩ := hlead
      have hread := FileTree.readText_eq_ok_iff_lookup.2
        ⟨loc, content, modified', hloc, hlookup, htext⟩
      have hnone : j.failureAt? .write t p = none := failureAt?_of_writable hread fun l hl => by
        cases hloc.symm.trans hl
        exact hwritable
      obtain ⟨modified'', hmany⟩ :=
        lookup_of_settled hadvances hloc hlookup htext (hsettled rfl p hp hnone)
      rw [hone, hmany]
      rfl
    · have hlocked : ∀ text, t.LeadToText files loc text → t.writable loc = false :=
        fun text hlead => Bool.eq_false_iff.2 fun hwritable => htext ⟨text, hlead, hwritable⟩
      rw [lookup_visitEach_of_not_leadToText (report, t) hlocked]
      by_cases hlisted : ∃ p ∈ files, t.locate p = .ok loc
      · rcases hadvances.lookup loc with heq | ⟨content, modified, text, _, hlookup, htext, -⟩
        · rw [heq]
        · rw [hadvances.locked loc (hlocked text ⟨hlisted, content, modified, hlookup, htext⟩)]
      · rw [helsewhere loc fun p hp hloc => hlisted ⟨p, hp, hloc⟩]

/-- Whether the tasks behind some others can come to these results, so that the run ends in a tree. -/
def Finishes (j : Job) (mode : Mode) (front : List Task) (t : FileTree) (tasks : List Task)
    (t' : FileTree) (results : List Visit) : Prop :=
  ∃ tasks' : List Task,
    Relation.ReflTransGen (j.Step mode) (t, front ++ tasks) (t', front ++ tasks') ∧
      tasks'.map (·.stage) = results.map Stage.finished

/-- One task is finished, and then those behind it. -/
theorem Finishes.cons {front tasks : List Task} {task : Task} {v : Visit} {results : List Visit}
    {t' t'' : FileTree}
    (hfirst : Relation.ReflTransGen (j.Step mode) (t, front ++ task :: tasks)
      (t', front ++ ⟨task.path, .finished v⟩ :: tasks))
    (h : j.Finishes mode (front ++ [⟨task.path, .finished v⟩]) t' tasks t'' results) :
    j.Finishes mode front t (task :: tasks) t'' (v :: results) := by
  obtain ⟨tasks', hrest, hstages⟩ := h
  rw [List.append_assoc, List.append_assoc] at hrest
  exact ⟨_ :: tasks', hfirst.trans hrest, congrArg (Stage.finished v :: ·) hstages⟩

theorem run_visit (j : Job) (mode : Mode) (t : FileTree) (front back : List Task) (path : Path) :
    Relation.ReflTransGen (j.Step mode) (t, front ++ ⟨path, .waiting⟩ :: back)
      ((finishedWith t path (j.visit mode t path)).2,
        front ++ ⟨path, (finishedWith t path (j.visit mode t path)).1⟩ :: back) := by
  have hread : Relation.ReflTransGen (j.Step mode) (t, front ++ ⟨path, .waiting⟩ :: back)
      (t, front ++ ⟨path, j.readStep mode t path⟩ :: back) := .single (.read t front back path)
  rw [finishedWith_visit]
  generalize j.readStep mode t path = stage at hread ⊢
  cases stage with
  | holding q => exact hread.tail (.write t front back path q)
  | waiting | finished v => exact hread

theorem finishes_visitEach (front : List Task) (done : Report × FileTree) (files : List Path) :
    j.Finishes mode front done.2 (waitingFor files) (j.visitEach mode done files).2
      (j.visits mode done.2 files) := by
  fun_induction j.visitEach mode done files generalizing front with
  | case1 done => exact ⟨[], .refl, rfl⟩
  | case2 report t path rest v t' h ih =>
    have hvisit := run_visit j mode t front (waitingFor rest) path
    rw [h] at hvisit
    rw [visits_cons_of_visit h]
    exact .cons hvisit (ih _)
  | case3 report t path rest e h ih =>
    have hvisit := run_visit j mode t front (waitingFor rest) path
    rw [h] at hvisit
    rw [visits_cons_of_error h]
    exact .cons hvisit (ih _)

/-- Visiting one after another is one of the orders in which the steps can come. -/
theorem interleaves_visitEach (j : Job) (mode : Mode) (report : Report) (t : FileTree)
    (files : List Path) :
    j.Interleaves mode t files (j.visitEach mode (report, t) files).2 (j.visits mode t files) :=
  @finishes_visitEach j mode [] (report, t) files

/-- No task gets stuck. -/
theorem exists_run_task (j : Job) (mode : Mode) (t : FileTree) (front back : List Task)
    (task : Task) :
    ∃ t' v, Relation.ReflTransGen (j.Step mode) (t, front ++ task :: back)
      (t', front ++ ⟨task.path, .finished v⟩ :: back) := by
  have hends : ∀ x : Except Error (Visit × FileTree),
      ∃ v, (finishedWith t task.path x).1 = .finished v := by
    intro x
    cases x with
    | ok done => exact ⟨done.1, rfl⟩
    | error e => exact ⟨_, rfl⟩
  obtain ⟨path, stage⟩ := task
  cases stage with
  | waiting =>
    obtain ⟨v, hv⟩ := hends (j.visit mode t path)
    exact ⟨_, v, hv ▸ run_visit j mode t front back path⟩
  | holding q =>
    obtain ⟨v, hv⟩ := hends (apply mode t path q)
    have hwrite : Relation.ReflTransGen (j.Step mode) (t, front ++ ⟨path, .holding q⟩ :: back)
        ((writeStep mode t path q).2, front ++ ⟨path, (writeStep mode t path q).1⟩ :: back) :=
      .single (.write t front back path q)
    rw [writeStep, hv] at hwrite
    exact ⟨_, v, hwrite⟩
  | finished v => exact ⟨t, v, .refl⟩

theorem exists_finishes (j : Job) (mode : Mode) (t : FileTree) (front tasks : List Task) :
    ∃ t' results, j.Finishes mode front t tasks t' results := by
  induction tasks generalizing t front with
  | nil => exact ⟨t, [], [], .refl, rfl⟩
  | cons task tasks ih =>
    obtain ⟨t', v, hfirst⟩ := exists_run_task j mode t front tasks task
    obtain ⟨t'', results, hrest⟩ := ih t' (front ++ [⟨task.path, .finished v⟩])
    exact ⟨t'', v :: results, .cons hfirst hrest⟩

/-- A run that has come anywhere can be brought to its end. -/
theorem exists_interleaves_of_run {files : List Path} {state : FileTree × List Task}
    (hrun : Relation.ReflTransGen (j.Step mode) (t, waitingFor files) state) :
    ∃ t' tasks results, Relation.ReflTransGen (j.Step mode) state (t', tasks) ∧
      j.Interleaves mode t files t' results := by
  obtain ⟨t', results, tasks, hrest, hstages⟩ := exists_finishes j mode state.1 [] state.2
  exact ⟨t', tasks, results, hrest, tasks, hrun.trans hrest, hstages⟩

end Job

end ExplicitApi
