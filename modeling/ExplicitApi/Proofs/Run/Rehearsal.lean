import ExplicitApi.Proofs.Run.Reordering

/-!
Dry runs. Main statement: a dry run over paths that lead to different files reports what a run that
writes reports, and any dry run finds a change if and only if a run that writes makes one.
-/
namespace ExplicitApi

def Change.inMode (mode : Mode) (o : Change) : Change := { o with written := !mode.isDry }

def Visit.inMode (mode : Mode) : Visit → Visit
  | .modified o => .modified (o.inMode mode)
  | v => v

/-- A report as a run in another mode, begun at some time, has it. -/
def Report.inMode (r : Report) (mode : Mode) (processedAt : Time.Instant) : Report :=
  { r with
    files := r.files.map (Change.inMode mode)
    summary := { r.summary with dryRun := mode.isDry, processedAt := processedAt.toMoment } }

namespace Report

variable (r : Report) (mode : Mode) (now : Time.Instant)

theorem inMode_start (mode' : Mode) (now' : Time.Instant) :
    (start mode' now').inMode mode now = start mode now := rfl

theorem inMode_add (v : Visit) :
    (r.add v).inMode mode now = (r.inMode mode now).add (v.inMode mode) := by
  cases v <;> simp [add, inMode, Visit.inMode, Change.inMode]

theorem inMode_foldl_add (vs : List Visit) :
    (vs.foldl add r).inMode mode now =
      (vs.map (Visit.inMode mode)).foldl add (r.inMode mode now) := by
  induction vs generalizing r with
  | nil => rfl
  | cons v vs ih => rw [List.foldl_cons, ih, inMode_add, List.map_cons, List.foldl_cons]

theorem inMode_addUntilFailure (vs : List Visit) :
    (r.addUntilFailure vs).inMode mode now =
      (r.inMode mode now).addUntilFailure (vs.map (Visit.inMode mode)) := by
  induction vs generalizing r with
  | nil => rfl
  | cons v vs ih =>
    cases v with
    | failed f => rfl
    | unchanged | cached | modified o =>
      rw [addUntilFailure_cons r (by simp), ih, inMode_add]
      rfl

theorem inMode_sorted : r.sorted.inMode mode now = (r.inMode mode now).sorted := by
  have hfiles : (r.files.mergeSort fun a b => precedes a.path b.path).map (Change.inMode mode) =
      (r.files.map (Change.inMode mode)).mergeSort fun a b => precedes a.path b.path :=
    List.map_mergeSort fun _ _ _ _ => rfl
  rw [inMode, sorted, hfiles]
  rfl

end Report

def FileTree.Changes (t t' : FileTree) : Prop :=
  ∃ loc before after modified modified', t.lookup loc = some (.file before modified) ∧
    t'.lookup loc = some (.file after modified') ∧ before ≠ after

/-- Whether every text that some paths lead to may be written. -/
def FileTree.AllowsWriting (t : FileTree) (files : List Path) : Prop :=
  ∀ loc text, t.LeadToText files loc text → t.writable loc = true

theorem FileTree.AllowsWriting.writable {t : FileTree} {files : List Path} {rules : Rules}
    {path : Path} {loc : Location} {text : String} (h : t.AllowsWriting files) (hp : path ∈ files)
    (hwants : t.Wants rules path loc text) : t.writable loc = true :=
  h loc text ⟨⟨path, hp, hwants.located⟩, hwants.found⟩

namespace Job

variable {j : Job} {mode : Mode} {t : FileTree} {files : List Path} {path : Path}

theorem outcome_inMode (j : Job) (mode mode' : Mode) (hallows : t.AllowsWriting files)
    (hp : path ∈ files) : j.outcome mode' t path = (j.outcome mode t path).inMode mode' := by
  cases hread : t.readText path with
  | error cause =>
    rw [outcome_of_visit_error (visit_unreadable hread),
      outcome_of_visit_error (visit_unreadable hread)]
    rfl
  | ok text =>
    by_cases hnone : (qualify j.config.rules text).insertions = []
    · have hsettled := FileTree.settled_iff.2 ⟨text, hread, hnone⟩
      rw [outcome_of_settled hsettled, outcome_of_settled hsettled]
      rfl
    · obtain ⟨loc, hwants⟩ := FileTree.exists_wants_iff.2 ⟨hread, hnone⟩
      have hwritable := hallows.writable hp hwants
      rw [outcome_of_wants hwants fun _ => hwritable, outcome_of_wants hwants fun _ => hwritable]
      rfl

/-- What a run reports is what a run in another mode does, but for what tells the modes apart. -/
theorem report_visitAll_inMode (j : Job) (options : Options) (mode mode' : Mode)
    (now now' : Time.Instant) (hapart : t.Apart files) (hallows : t.AllowsWriting files) :
    (j.visitAll { options with mode := mode' } now' t files).1 =
      (j.visitAll { options with mode } now t files).1.inMode mode' now' := by
  have hvisits : files.map (j.outcome mode' t) =
      (files.map (j.outcome mode t)).map (Visit.inMode mode') := by
    rw [List.map_map]
    exact List.map_congr_left fun p hp => outcome_inMode j mode mode' hallows hp
  rw [report_visitAll j _ now' (.inr hapart), report_visitAll j _ now (.inr hapart),
    Report.inMode_sorted]
  dsimp only
  rw [hvisits, ← Report.inMode_start mode' now' mode now]
  cases options.failFast with
  | false =>
    rw [if_neg Bool.false_ne_true, if_neg Bool.false_ne_true, ← Report.inMode_foldl_add]
    rfl
  | true =>
    rw [if_pos rfl, if_pos rfl, ← Report.inMode_addUntilFailure]
    rfl

theorem filesModified_foldl_add (r : Report) (vs : List Visit) :
    (vs.foldl Report.add r).summary.filesModified =
      r.summary.filesModified + .ofNat (vs.filterMap Visit.change?).length := by
  induction vs generalizing r with
  | nil => simp
  | cons v vs ih =>
    rw [List.foldl_cons, ih]
    cases v with
    | modified o =>
      simp [Report.add, Visit.change?, UInt64.ofNat_add, UInt64.add_assoc, UInt64.add_comm]
    | unchanged | cached | failed f => rfl

def NeedsChange (j : Job) (t : FileTree) (files : List Path) : Prop :=
  ∃ p ∈ files, ∃ text, t.readText p = .ok text ∧ (qualify j.config.rules text).insertions ≠ []

/-- A dry run reports changes when there is something to change. -/
theorem changes_ne_nil_iff :
    (files.map (j.outcome .dry t)).filterMap Visit.change? ≠ [] ↔ j.NeedsChange t files := by
  rw [ne_eq, List.filterMap_eq_nil_iff]
  constructor
  · intro h
    obtain ⟨v, hv, hchange⟩ : ∃ v ∈ files.map (j.outcome .dry t), v.change? ≠ none := by
      simpa using h
    obtain ⟨p, hp, rfl⟩ := List.mem_map.1 hv
    rcases j.outcome_cases .dry t p with ⟨-, heq⟩ | ⟨loc, text, hwants, -, -⟩ | ⟨f, -, heq, -⟩
    · exact absurd (by rw [heq]; rfl) hchange
    · exact ⟨p, hp, text, hwants.readText, hwants.insertions⟩
    · exact absurd (by rw [heq]; rfl) hchange
  · rintro ⟨p, hp, text, hread, hsome⟩ h
    obtain ⟨loc, hwants⟩ := FileTree.exists_wants_iff.2 ⟨hread, hsome⟩
    have hnone := h _ (List.mem_map_of_mem hp)
    have houtcome : j.outcome .dry t p = _ := outcome_of_wants hwants nofun
    rw [houtcome] at hnone
    cases hnone

/-- A run that writes changes the content of a file when one needs it. -/
theorem changes_visitEach_iff (j : Job) (report : Report) (hallows : t.AllowsWriting files) :
    t.Changes (j.visitEach .write (report, t) files).2 ↔ j.NeedsChange t files := by
  constructor
  · rintro ⟨loc, before, after, m, m', hbefore, hafter, hne⟩
    by_contra hneeds
    have hsettled : ∀ p ∈ files, j.failureAt? .write t p = none → t.Settled j.config.rules p := by
      intro p hp hnone
      rcases j.outcome_cases .write t p with
        ⟨hsettled, -⟩ | ⟨loc, text, hwants, -, -⟩ | ⟨f, -, -, hfailure⟩
      · exact hsettled
      · exact absurd ⟨p, hp, text, hwants.readText, hwants.insertions⟩ hneeds
      · cases hnone.symm.trans hfailure
    rw [(visitEach_of_settled .write (report, t) files hsettled).1] at hafter
    cases hbefore.symm.trans hafter
    exact hne rfl
  · rintro ⟨p, hp, text, hread, hsome⟩
    obtain ⟨loc, hwants⟩ := FileTree.exists_wants_iff.2 ⟨hread, hsome⟩
    obtain ⟨content, modified, hlookup, htext⟩ := hwants.found
    obtain ⟨modified', hafter⟩ := lookup_visitEach_of_leadToText j report
      ⟨⟨p, hp, hwants.located⟩, content, modified, hlookup, htext⟩ (hallows.writable hp hwants)
    refine ⟨loc, content, _, modified, modified', hlookup, hafter, fun heq => ?_⟩
    have haccepts : j.config.rules.Accepts content := heq ▸ j.config.rules.accepts_qualify text
    obtain ⟨text', htext', hnone⟩ := haccepts
    cases htext.symm.trans htext'
    exact hsome hnone

end Job

end ExplicitApi
