import ExplicitApi.Proofs.Run.Effect

/-!
Runs in which no visit changes what another one finds: those over paths that lead to different
files, and dry ones. Main statement: what such a run reports of each path can be told from the tree
before it.
-/
namespace ExplicitApi

namespace FileTree

variable {t t' : FileTree} {p q : Path}

def ReachSame (t : FileTree) (p q : Path) : Prop :=
  ∃ loc content modified, t.locate p = .ok loc ∧ t.locate q = .ok loc ∧
    t.lookup loc = some (.file content modified)

/-- Whether no two paths of a list lead to one file. -/
def Apart (t : FileTree) (paths : List Path) : Prop := paths.Pairwise fun p q => ¬t.ReachSame p q

theorem ReachSame.symm (h : t.ReachSame p q) : t.ReachSame q p := by
  obtain ⟨loc, content, modified, hp, hq, hlookup⟩ := h
  exact ⟨loc, content, modified, hq, hp, hlookup⟩

theorem ReachSame.of_sameShape (h : t.SameShape t') (hreach : t'.ReachSame p q) :
    t.ReachSame p q := by
  obtain ⟨loc, content, modified, hp, hq, hlookup⟩ := hreach
  rw [locate_congr h] at hp hq
  obtain ⟨content, modified, hlookup⟩ := h.symm.exists_file hlookup
  exact ⟨loc, content, modified, hp, hq, hlookup⟩

theorem Apart.of_sameShape {paths : List Path} (h : t.SameShape t') (hapart : t.Apart paths) :
    t'.Apart paths :=
  hapart.imp fun hne hreach => hne (hreach.of_sameShape h)

theorem Apart.perm {paths paths' : List Path} (hapart : t.Apart paths)
    (h : paths'.Perm paths) : t.Apart paths' :=
  List.Pairwise.perm hapart h.symm fun hne hreach => hne hreach.symm

theorem readText_congr (hlocate : t'.locate p = t.locate p)
    (h : ∀ loc, t.locate p = .ok loc → t'.lookup loc = t.lookup loc) :
    t'.readText p = t.readText p := by
  cases hloc : t.locate p with
  | error e => simp [readText, read, entry, hlocate, hloc, bind, Except.bind]
  | ok loc => simp [readText, read, entry, hlocate, hloc, bind, Except.bind, h loc hloc]

/-- What is put into a file is not seen through a path that leads elsewhere. -/
theorem readText_putContent {loc : Location} {content : ByteArray} {modified : Timestamp}
    (hlookup : t.lookup loc = some (.file content modified)) (b : ByteArray)
    (hne : t.locate q ≠ .ok loc) : (t.putContent loc b).readText q = t.readText q := by
  refine readText_congr (locate_congr (sameShape_putContent hlookup b) q) fun l hl => ?_
  rw [lookup_putContent hlookup, if_neg]
  rintro rfl
  exact hne hl

end FileTree

/-- Takes in results up to the first failure, at which the run stops. -/
def Report.addUntilFailure (r : Report) : List Visit → Report
  | [] => r
  | .failed failure :: _ => r.stopAt failure
  | v :: rest => (r.add v).addUntilFailure rest

theorem Report.addUntilFailure_cons (r : Report) {v : Visit} (h : ∀ f, v ≠ .failed f)
    (rest : List Visit) : r.addUntilFailure (v :: rest) = (r.add v).addUntilFailure rest := by
  cases v with
  | failed f => exact absurd rfl (h f)
  | unchanged | cached | modified o => rfl

namespace Job

variable {j : Job} {mode : Mode} {t t' : FileTree} {path q : Path} {v : Visit}

/-- What a run reports of a path, going by the tree before the run. -/
def outcome (j : Job) (mode : Mode) (t : FileTree) (path : Path) : Visit :=
  match j.visit mode t path with
  | .ok (v, _) => v
  | .error e => .failed (failureOf path e)

/-- What becomes of the files of a list when they are visited one after another. -/
def visits (j : Job) (mode : Mode) : FileTree → List Path → List Visit
  | _, [] => []
  | t, path :: rest =>
    match j.visit mode t path with
    | .ok (v, t') => v :: visits j mode t' rest
    | .error e => .failed (failureOf path e) :: visits j mode t rest

theorem visits_cons_of_visit (h : j.visit mode t path = .ok (v, t')) (rest : List Path) :
    j.visits mode t (path :: rest) = v :: j.visits mode t' rest := by
  rw [visits, h]

theorem visits_cons_of_error {e : Error} (h : j.visit mode t path = .error e) (rest : List Path) :
    j.visits mode t (path :: rest) = .failed (failureOf path e) :: j.visits mode t rest := by
  rw [visits, h]

theorem outcome_of_visit (h : j.visit mode t path = .ok (v, t')) :
    j.outcome mode t path = v := by
  rw [outcome, h]

theorem outcome_of_visit_error {e : Error} (h : j.visit mode t path = .error e) :
    j.outcome mode t path = .failed (failureOf path e) := by
  rw [outcome, h]

theorem outcome_of_settled (h : t.Settled j.config.rules path) :
    j.outcome mode t path = .unchanged :=
  outcome_of_visit (visit_of_settled h)

theorem outcome_of_wants {loc : Location} {text : String}
    (h : t.Wants j.config.rules path loc text) (hwritable : mode = .write → t.writable loc = true) :
    j.outcome mode t path =
      .modified ⟨path, (qualify j.config.rules text).insertions, !mode.isDry⟩ := by
  cases mode with
  | dry => exact outcome_of_visit (visit_dry h.readText h.insertions)
  | write => exact outcome_of_visit (visit_write h (hwritable rfl))

/-- Trees of one shape let the same be found where a path leads to the same text. -/
theorem outcome_congr (hshape : t.SameShape t') (h : t'.readText path = t.readText path) :
    j.outcome mode t' path = j.outcome mode t path := by
  cases hvisit : j.visit mode t path with
  | error e =>
    rw [outcome_of_visit_error hvisit]
    refine outcome_of_visit_error ?_
    cases comes_of_visit hvisit with
    | unreadable hread => exact visit_unreadable (h.trans hread)
    | refused hmode hold hlocked =>
      subst hmode
      exact visit_locked (hold.of_readText hshape h) (hshape.writable ▸ hlocked)
  | ok done =>
    rw [outcome_of_visit hvisit]
    cases comes_of_visit hvisit with
    | settled hsettled => exact outcome_of_settled (hsettled.of_readText h)
    | foreseen hmode hold =>
      subst hmode
      exact outcome_of_wants (hold.of_readText hshape h) nofun
    | written hmode hold hwritable =>
      subst hmode
      exact outcome_of_wants (hold.of_readText hshape h) fun _ => hshape.writable ▸ hwritable

theorem outcome_of_failureAt? {f : Failure} (h : j.failureAt? mode t path = some f) :
    j.outcome mode t path = .failed f := by
  unfold failureAt? at h
  split at h
  · cases h
  · next e hvisit =>
    cases h
    exact outcome_of_visit_error hvisit

/-- What a run can report of a path. -/
theorem outcome_cases (j : Job) (mode : Mode) (t : FileTree) (path : Path) :
    t.Settled j.config.rules path ∧ j.outcome mode t path = .unchanged ∨
      (∃ loc text, t.Wants j.config.rules path loc text ∧
        (mode = .write → t.writable loc = true) ∧ j.outcome mode t path =
          .modified ⟨path, (qualify j.config.rules text).insertions, !mode.isDry⟩) ∨
      ∃ f, f.path = path ∧ j.outcome mode t path = .failed f ∧
        j.failureAt? mode t path = some f := by
  cases hvisit : j.visit mode t path with
  | error e =>
    exact .inr (.inr ⟨_, path_failureOf path e, outcome_of_visit_error hvisit,
      failureAt?_of_visit_error hvisit⟩)
  | ok done =>
    rw [outcome_of_visit hvisit]
    cases comes_of_visit hvisit with
    | settled hsettled => exact .inl ⟨hsettled, rfl⟩
    | foreseen hmode hwants =>
      subst hmode
      exact .inr (.inl ⟨_, _, hwants, nofun, rfl⟩)
    | written hmode hwants hwritable =>
      subst hmode
      exact .inr (.inl ⟨_, _, hwants, fun _ => hwritable, rfl⟩)

theorem outcome_ne_failed (h : j.visit mode t path = .ok (v, t')) (f : Failure) :
    v ≠ .failed f := by
  rcases (visit_spec h).2 with ⟨rfl, -⟩ | ⟨o, rfl, -⟩
  · nofun
  · nofun

/-- A visit changes nothing that is read through a path that leads elsewhere. -/
theorem readText_visit (h : j.visit mode t path = .ok (v, t')) (hapart : ¬t.ReachSame path q) :
    t'.readText q = t.readText q := by
  refine FileTree.readText_congr (locate_visit h q) fun loc hq => lookup_visit h fun hpath => ?_
  obtain ⟨text, hread⟩ := exists_readText_of_visit h
  obtain ⟨loc', content, modified, hloc, hlookup, -⟩ :=
    FileTree.readText_eq_ok_iff_lookup.1 hread
  cases hpath.symm.trans hloc
  exact hapart ⟨loc, content, modified, hpath, hq, hlookup⟩

theorem tree_of_visit_dry (h : j.visit .dry t path = .ok (v, t')) : t' = t := by
  cases comes_of_visit h with
  | settled | foreseen => rfl
  | written hmode => cases hmode

theorem tree_visitEach_dry (done : Report × FileTree) (files : List Path) :
    (j.visitEach .dry done files).2 = done.2 := by
  fun_induction j.visitEach .dry done files with
  | case1 done => rfl
  | case2 report t path rest v t' h ih => rw [ih, tree_of_visit_dry h]
  | case3 report t path rest e h ih => exact ih

theorem tree_visitUntilFailure_dry (done : Report × FileTree) (files : List Path) :
    (j.visitUntilFailure .dry done files).2 = done.2 := by
  fun_induction j.visitUntilFailure .dry done files with
  | case1 done => rfl
  | case2 report t path rest v t' h ih => rw [ih, tree_of_visit_dry h]
  | case3 report t path rest e h => rfl

/-- Whether no visit of a list of paths can change what another one finds. -/
def Independent (mode : Mode) (t : FileTree) (files : List Path) : Prop :=
  mode = .dry ∨ t.Apart files

/-- What is told of the paths behind a visited one is the same before and after the visit. -/
theorem map_outcome_visit {rest : List Path} (h : j.visit mode t path = .ok (v, t'))
    (hindependent : Independent mode t (path :: rest)) :
    rest.map (j.outcome mode t') = rest.map (j.outcome mode t) := by
  rcases hindependent with rfl | hapart
  · rw [tree_of_visit_dry h]
  · refine List.map_congr_left fun q hq =>
      outcome_congr (visit_spec h).1.sameShape (readText_visit h ?_)
    exact (List.pairwise_cons.1 hapart).1 q hq

theorem Independent.tail {rest : List Path} (h : Independent mode t (path :: rest)) :
    Independent mode t rest :=
  h.imp_right fun hapart => (List.pairwise_cons.1 hapart).2

theorem Independent.visit {rest : List Path} (h : Independent mode t (path :: rest))
    (hvisit : j.visit mode t path = .ok (v, t')) : Independent mode t' rest :=
  h.tail.imp_right (.of_sameShape (visit_spec hvisit).1.sameShape)

/-- A run takes in what becomes of its files. -/
theorem report_visitEach (done : Report × FileTree) (files : List Path) :
    (j.visitEach mode done files).1 = (j.visits mode done.2 files).foldl Report.add done.1 := by
  fun_induction j.visitEach mode done files with
  | case1 done => rfl
  | case2 report t path rest v t' h ih => rw [ih, visits_cons_of_visit h, List.foldl_cons]
  | case3 report t path rest e h ih => rw [ih, visits_cons_of_error h, List.foldl_cons]

theorem report_visitUntilFailure (done : Report × FileTree) (files : List Path) :
    (j.visitUntilFailure mode done files).1 =
      done.1.addUntilFailure (j.visits mode done.2 files) := by
  fun_induction j.visitUntilFailure mode done files with
  | case1 done => rfl
  | case2 report t path rest v t' h ih =>
    rw [ih, visits_cons_of_visit h, Report.addUntilFailure_cons _ (outcome_ne_failed h)]
  | case3 report t path rest e h =>
    rw [visits_cons_of_error h]
    rfl

/-- Where no visit can change what another one finds, all go by the tree before the run. -/
theorem visits_eq_map_outcome {files : List Path} (hindependent : Independent mode t files) :
    j.visits mode t files = files.map (j.outcome mode t) := by
  induction files generalizing t with
  | nil => rfl
  | cons path rest ih =>
    cases h : j.visit mode t path with
    | ok result =>
      obtain ⟨v, t'⟩ := result
      rw [visits_cons_of_visit h, ih (hindependent.visit h), map_outcome_visit h hindependent,
        List.map_cons, outcome_of_visit h]
    | error e =>
      rw [visits_cons_of_error h, ih hindependent.tail, List.map_cons, outcome_of_visit_error h]

/-- The report of a run in which no visit can change what another one finds. -/
theorem report_visitAll (j : Job) (options : Options) (now : Time.Instant) {t : FileTree}
    {files : List Path} (hindependent : Independent options.mode t files) :
    (j.visitAll options now t files).1 =
      ((if options.failFast then
          (Report.start options.mode now).addUntilFailure (files.map (j.outcome options.mode t))
        else
          (files.map (j.outcome options.mode t)).foldl Report.add
            (Report.start options.mode now)).withFingerprint j.config.fingerprint).sorted := by
  have hvisits : j.visits options.mode t files = files.map (j.outcome options.mode t) :=
    visits_eq_map_outcome hindependent
  unfold visitAll
  cases options.failFast with
  | false => simp [report_visitEach, hvisits]
  | true => simp [report_visitUntilFailure, hvisits]

/-- A dry run leaves the tree as it is. -/
theorem tree_visitAll_dry (j : Job) (options : Options) (now : Time.Instant) (t : FileTree)
    (files : List Path) : (j.visitAll { options with mode := .dry } now t files).2 = t := by
  unfold visitAll
  cases options.failFast with
  | false => exact tree_visitEach_dry (Report.start .dry now, t) files
  | true => exact tree_visitUntilFailure_dry (Report.start .dry now, t) files

end Job

end ExplicitApi
