import ExplicitApi.Command.Run
import ExplicitApi.Proofs.Cache.OnDisk
import ExplicitApi.Proofs.Run.Parallel

/-!
Histories of runs that keep one record. Main statement: at any time each entry of the record, in
memory or on disk, carries the hash of a content that its configuration leaves alone.
-/
namespace ExplicitApi

namespace Runner

variable {s : Scope} {r r' : Runner} {options : Job.Options} {now : Time.Instant}
  {t t' : FileTree} {paths : List Path} {report : Report}

/-- What a run over files does with a record. -/
def recorded (j : Job) (options : Job.Options) (now : Time.Instant) (t : FileTree)
    (files : List Path) (c : Cache) : Cache :=
  let done := j.visitAll options now t (unknown c t files)
  (visited done.1 (unknown c t files)).foldl (settle done.2 (pending done.1)) c

/-- A run leaves the record alone or does with it what its files call for. -/
theorem run_cases {useCache : Bool}
    (h : r.run options useCache now t paths = .ok (report, r', t')) :
    (r' = r ∧ ∃ files, r.job.files options t paths = .ok files ∧
        t' = (r.job.visitAll options now t files).2) ∨
      ∃ c files, r.cache = some c ∧ r.job.files options t paths = .ok files ∧
        t' = (r.job.visitAll options now t (unknown c t files)).2 ∧
        r' = { r with cache := some (recorded r.job options now t files c) } := by
  rw [run_eq] at h
  cases hfiles : r.job.files options t paths with
  | error e =>
    rw [hfiles] at h
    cases h
  | ok files =>
    rw [hfiles] at h
    dsimp only [Except.map] at h
    split at h
    · next c hc =>
      cases h
      have hcache : r.cache = some c := by
        cases useCache with
        | true => exact hc
        | false => cases hc
      exact .inr ⟨c, files, hcache, rfl, rfl, rfl⟩
    · cases h
      exact .inl ⟨rfl, files, rfl, rfl⟩

/-- A run over a file that needs nothing records it. -/
theorem run_of_settled {j : Job} {c : Cache} {options : Job.Options} {t : FileTree}
    {paths : List Path} {path : Path} {stamp : Stamp}
    (hfiles : j.files options t paths = .ok [path]) (h : t.Settled j.config.rules path)
    (hc : isKnown c t path = false) (hstamp : Stamp.read t path = .ok stamp) (now : Time.Instant) :
    ∃ report, Runner.run ⟨j, some c⟩ options true now t paths =
      .ok (report, ⟨j, some (c.insert path stamp)⟩, t) := by
  have hunknown : unknown c t [path] = [path] := by simp [unknown, hc]
  have hvisit : ∀ mode, j.visit mode t path = .ok (.unchanged, t) :=
    fun _ => Job.visit_of_settled h
  have hrun : j.visitAll options now t [path] =
      ((((Report.start options.mode now).add .unchanged).withFingerprint
        j.config.fingerprint).sorted, t) := by
    unfold Job.visitAll
    cases options.failFast <;> simp [Job.visitEach, Job.visitUntilFailure, hvisit]
  have hrecorded : recorded j options now t [path] c = c.insert path stamp := by
    simp [recorded, hunknown, hrun, visited, pending, Report.sorted, Report.withFingerprint,
      Report.add, Report.start, settle, Cache.learn, hstamp, bind, Except.bind, pure, Except.pure]
  refine ⟨([path].filter (isKnown c t)).foldl (fun report _ => report.add .cached)
    (j.visitAll options now t [path]).1, ?_⟩
  have htaken : takeIn c ([path].filter (isKnown c t)) [path] (j.visitAll options now t [path]) =
      (([path].filter (isKnown c t)).foldl (fun report _ => report.add .cached)
        (j.visitAll options now t [path]).1, c.insert path stamp, t) := by
    rw [recorded, hunknown] at hrecorded
    rw [takeIn, hrecorded, hrun]
  simp [Runner.run, runCached_eq, hfiles, hunknown, htaken, bind, Except.bind, Except.map,
    pure, Except.pure]

theorem MayGive.advances {useCache : Bool}
    (h : r.MayGive options useCache now t paths (.ok (report, r', t'))) :
    t.Advances r.job.config.rules t' := by
  cases h with
  | whole hcache hfiles hdone => exact hdone.covers.advances
  | partly hcache hfiles hdone => exact hdone.covers.advances

/-- A run keeps a runner's record sound. -/
theorem IsSound.run {useCache : Bool} (hr : r.IsSound s)
    (h : r.MayGive options useCache now t paths (.ok (report, r', t'))) (ht' : s.Holds t') :
    r'.IsSound s := by
  cases h with
  | whole hcache hfiles hdone => exact hr
  | partly hc hfiles hdone =>
    obtain ⟨hconfig, hcache⟩ := hr
    obtain ⟨hfingerprint, hsound⟩ := hcache _ hc.2
    refine ⟨hconfig, fun c' hc' => ?_⟩
    cases hc'
    refine ⟨?_, isSound_foldl_settle hsound ht' hconfig hfingerprint hdone.covers.settled⟩
    rw [fingerprint_foldl_settle, hfingerprint]

theorem config_of_ofConfig {config : Config} {job : Job} (h : Job.ofConfig config = .ok job) :
    job.config = config := by
  unfold Job.ofConfig at h
  split at h
  · cases h
  · dsimp only at h
    split at h
    · cases h
    · cases h
      rfl

theorem IsSound.make {config : Config} {path : Path} (hconfig : config ∈ s.configs)
    (hsaved : ∀ content, t.read path = .ok content → Cache.IsSaved s content)
    (h : make config t (some path) = .ok r) : r.IsSound s := by
  obtain ⟨job, hjob, h⟩ := bind_eq_ok_iff.1 h
  obtain ⟨c, hc, h⟩ := bind_eq_ok_iff.1 h
  cases h
  have hjobConfig := config_of_ofConfig hjob
  refine ⟨by rw [hjobConfig]; exact hconfig, fun c' hc' => ?_⟩
  cases hc'
  rw [hjobConfig, Cache.fingerprint_bind]
  exact ⟨rfl, (Cache.isSound_of_openAt hsaved hc).bind _⟩

/-- Saving keeps a runner's record sound, and writes nothing but the text of a sound record. -/
theorem IsSound.save {result : Except Error Unit} (hr : r.IsSound s)
    (h : r.save t now = (result, r', t')) :
    r'.IsSound s ∧ ∀ loc content modified, t'.lookup loc = some (.file content modified) →
      t.lookup loc = some (.file content modified) ∨ Cache.IsSaved s content := by
  unfold Runner.save at h
  split at h
  · next c hc =>
    obtain ⟨hfingerprint, hsound⟩ := hr.2 c hc
    cases hsave : c.save t now with
    | mk result₁ rest =>
      obtain ⟨c₁, t₁⟩ := rest
      rw [hsave] at h
      cases h
      obtain ⟨hfingerprint', hsound', hlookup⟩ := hsound.save hsave
      refine ⟨⟨hr.1, fun c' hc' => ?_⟩, hlookup⟩
      cases hc'
      exact ⟨hfingerprint'.trans hfingerprint, hsound'⟩
  · cases h
    exact ⟨hr, fun _ _ _ hlookup => .inl hlookup⟩

theorem IsSound.prune (hr : r.IsSound s) (t : FileTree) :
    IsSound s { r with cache := r.cache.map fun c => c.withoutMissing t } := by
  refine ⟨hr.1, fun c' hc' => ?_⟩
  obtain ⟨c, hc, rfl⟩ := Option.map_eq_some_iff.1 hc'
  obtain ⟨hfingerprint, hsound⟩ := hr.2 c hc
  exact ⟨hfingerprint, hsound.withoutMissing t⟩

end Runner

structure World where
  tree : FileTree
  runners : List Runner

namespace World

def LeadsAtMostTo (file : Location) (t : FileTree) (path : Path) : Prop :=
  ∀ loc, t.locate path = .ok loc → loc = file

/--
What can happen between two moments of a history: sources change in any way, but what lies at `file`
only by saving.
-/
inductive Step (s : Scope) (file : Location) : World → World → Prop
  | opened {t : FileTree} {runners : List Runner} {config : Config} {path : Path} {r : Runner} :
      LeadsAtMostTo file t path → config ∈ s.configs →
      Runner.make config t (some path) = .ok r → Step s file ⟨t, runners⟩ ⟨t, r :: runners⟩
  | ran {t t' : FileTree} {front back : List Runner} {r r' : Runner} {options : Job.Options}
      {useCache : Bool} {now : Time.Instant} {paths : List Path} {report : Report} :
      r.MayGive options useCache now t paths (.ok (report, r', t')) → s.Holds t' →
      Step s file ⟨t, front ++ r :: back⟩ ⟨t', front ++ r' :: back⟩
  | saved {t t' : FileTree} {front back : List Runner} {r r' : Runner} {now : Time.Instant}
      {result : Except Error Unit} :
      r.save t now = (result, r', t') → s.Holds t' →
      Step s file ⟨t, front ++ r :: back⟩ ⟨t', front ++ r' :: back⟩
  | pruned {t : FileTree} {front back : List Runner} {r : Runner} :
      Step s file ⟨t, front ++ r :: back⟩
        ⟨t, front ++ { r with cache := r.cache.map fun c => c.withoutMissing t } :: back⟩
  | cleaned {t : FileTree} {runners : List Runner} {path : Path} {setting : Command.Setting} :
      LeadsAtMostTo file t path → s.Holds (Command.cleanUpCache path setting t).tree →
      Step s file ⟨t, runners⟩ ⟨(Command.cleanUpCache path setting t).tree, runners⟩
  | changed {t t' : FileTree} {runners : List Runner} :
      (∀ content modified', t'.lookup file = some (.file content modified') →
        ∃ modified, t.lookup file = some (.file content modified)) →
      s.Holds t' → Step s file ⟨t, runners⟩ ⟨t', runners⟩

/-- Whether a history leads to a world, from one without runners and without a record. -/
def Reachable (s : Scope) (file : Location) (w : World) : Prop :=
  ∃ t : FileTree, s.Holds t ∧ (∀ content modified, t.lookup file ≠ some (.file content modified)) ∧
    Relation.ReflTransGen (Step s file) ⟨t, []⟩ w

/-- What every step of a history keeps. -/
structure IsSound (s : Scope) (file : Location) (w : World) : Prop where
  holds : s.Holds w.tree
  runners : ∀ r ∈ w.runners, r.IsSound s
  saved : ∀ content modified, w.tree.lookup file = some (.file content modified) →
    Cache.IsSaved s content

variable {s : Scope} {file : Location} {w w' : World}

theorem IsSound.read {t : FileTree} {path : Path}
    (hsaved : ∀ content modified, t.lookup file = some (.file content modified) →
      Cache.IsSaved s content) (hpath : LeadsAtMostTo file t path) {content : ByteArray}
    (h : t.read path = .ok content) : Cache.IsSaved s content := by
  obtain ⟨modified, hentry⟩ := FileTree.read_eq_ok_iff.1 h
  obtain ⟨loc, hloc, hlookup⟩ := FileTree.entry_eq_ok_iff.1 hentry
  rw [hpath loc hloc] at hlookup
  exact hsaved content modified hlookup

theorem lookup_cleanUpCache {t : FileTree} {path : Path} {setting : Command.Setting}
    (hsaved : ∀ content, t.read path = .ok content → Cache.IsSaved s content) {loc : Location}
    {content : ByteArray} {modified : Timestamp}
    (h : (Command.cleanUpCache path setting t).tree.lookup loc = some (.file content modified)) :
    t.lookup loc = some (.file content modified) ∨ Cache.IsSaved s content := by
  unfold Command.cleanUpCache at h
  split at h
  · exact .inl h
  · split at h
    · exact .inl h
    · next c hopen =>
      have hsound := (Cache.isSound_of_openAt hsaved hopen).withoutMissing t
      dsimp only at h
      cases hsave : (c.withoutMissing t).save t setting.now with
      | mk result rest =>
        obtain ⟨c', t'⟩ := rest
        rw [hsave] at h
        have hlookup := (hsound.save hsave).2.2 loc content modified
        cases result <;> exact hlookup h

theorem forall_runners_replace {P : Runner → Prop} {front back : List Runner} {r r' : Runner}
    (h : ∀ q ∈ front ++ r :: back, P q) (hr' : P r → P r') : ∀ q ∈ front ++ r' :: back, P q := by
  simp only [List.forall_mem_append, List.forall_mem_cons] at h ⊢
  exact ⟨h.1, hr' h.2.1, h.2.2⟩

theorem IsSound.step (hw : w.IsSound s file) (h : Step s file w w') : w'.IsSound s file := by
  obtain ⟨hholds, hrunners, hsaved⟩ := hw
  cases h with
  | opened hpath hconfig hmake =>
    refine ⟨hholds, List.forall_mem_cons.2 ⟨?_, hrunners⟩, hsaved⟩
    exact Runner.IsSound.make hconfig (fun content => IsSound.read hsaved hpath) hmake
  | ran hrun ht' =>
    refine ⟨ht', forall_runners_replace hrunners fun hr => hr.run hrun ht', ?_⟩
    intro content modified hlookup
    -- a run writes where a qualifier is needed, and a record's text needs none
    rcases hrun.advances.lookup file with heq | ⟨old, m, _, _, hold, _, hnot, _⟩
    · exact hsaved content modified (heq ▸ hlookup)
    · exact absurd ((hsaved old m hold).accepts _) hnot
  | @saved _ _ front back r r' _ _ hsave ht' =>
    have hr : r.IsSound s := hrunners r (by simp)
    obtain ⟨hr', hlookup'⟩ := hr.save hsave
    refine ⟨ht', forall_runners_replace hrunners fun _ => hr', fun content modified hlookup => ?_⟩
    exact (hlookup' file content modified hlookup).elim (hsaved content modified) id
  | pruned => exact ⟨hholds, forall_runners_replace hrunners fun hr => hr.prune _, hsaved⟩
  | cleaned hpath ht' =>
    refine ⟨ht', hrunners, fun content modified hlookup => ?_⟩
    have hread : ∀ content, _ → Cache.IsSaved s content := fun content =>
      IsSound.read hsaved hpath
    exact (lookup_cleanUpCache hread hlookup).elim (hsaved content modified) id
  | changed hchange ht' =>
    refine ⟨ht', hrunners, fun content modified hlookup => ?_⟩
    obtain ⟨modified', hold⟩ := hchange content modified hlookup
    exact hsaved content modified' hold

theorem Reachable.isSound (h : w.Reachable s file) : w.IsSound s file := by
  obtain ⟨t, ht, hnone, hsteps⟩ := h
  induction hsteps with
  | refl =>
    refine ⟨ht, fun r hr => absurd hr List.not_mem_nil, fun content modified hlookup => ?_⟩
    exact absurd hlookup (hnone content modified)
  | tail _ hstep ih => exact ih.step hstep

/-- Whether a record is in the memory of a runner, or in a file that leads to `file` on disk. -/
def HasRecord (file : Location) (w : World) (c : Cache) : Prop :=
  (∃ r ∈ w.runners, r.cache = some c) ∨
    ∃ path, LeadsAtMostTo file w.tree path ∧ Cache.openAt w.tree path = .ok c

theorem Reachable.isSound_record (h : w.Reachable s file) {c : Cache} (hc : w.HasRecord file c) :
    c.IsSound s := by
  obtain ⟨-, hrunners, hsaved⟩ := h.isSound
  rcases hc with ⟨r, hr, hcache⟩ | ⟨path, hpath, hopen⟩
  · exact ((hrunners r hr).2 c hcache).2
  · exact Cache.isSound_of_openAt (fun content => IsSound.read hsaved hpath) hopen

/--
The entries of a record carry hashes of contents that need nothing, so it answers only for paths
that need nothing.
-/
theorem record_sound (h : w.Reachable s file) {c : Cache} (hc : w.HasRecord file c) :
    c.IsSound s ∧ (s.CollisionFree → ∀ config ∈ s.configs, config.fingerprint = c.fingerprint →
      ∀ path, c.knows w.tree path = .ok true → w.tree.Settled config.rules path) := by
  have hsound := h.isSound_record hc
  refine ⟨hsound, fun hs config hconfig hfingerprint path hknows => ?_⟩
  exact Cache.settled_of_knows hsound hs h.isSound.holds hconfig hfingerprint.symm hknows

def tidyTree : FileTree :=
  FileTree.empty.put [['A', '.', 'k', 't']] (.file "public class A".toUTF8 ⟨1, 0⟩)

def tidyScope : Scope := ⟨{"public class A".toUTF8}, {{}}⟩

def tidyJob : Job := ⟨{}, ⟨[".kt"], [], [], some ".visibilityignore"⟩⟩

def tidyRecord : Cache :=
  ((Cache.mk ⟨"c.json"⟩ "" none ∅ true).bind ({} : Config).fingerprint).insert ⟨"A.kt"⟩
    ⟨.ofNat "public class A".toUTF8.size, ⟨1, 0⟩, Stamp.hashOf "public class A".toUTF8⟩

def tidyWorld : World := ⟨tidyTree, [⟨tidyJob, some tidyRecord⟩]⟩

theorem lookup_tidyTree (loc : Location) :
    tidyTree.lookup loc = if loc = [['A', '.', 'k', 't']] then
      some (.file "public class A".toUTF8 ⟨1, 0⟩) else FileTree.empty.lookup loc :=
  FileTree.lookup_put (by decide) loc

theorem eq_of_lookup_tidyTree {loc : Location} {content : ByteArray} {modified : Timestamp}
    (h : tidyTree.lookup loc = some (.file content modified)) :
    loc = [['A', '.', 'k', 't']] ∧ content = "public class A".toUTF8 := by
  rw [lookup_tidyTree] at h
  split at h
  · next hloc =>
    cases h
    exact ⟨hloc, rfl⟩
  · cases loc <;> cases h

theorem locate_tidyTree (name : List Char) {path : Path}
    (hresolve : tidyTree.resolve true path = tidyTree.follow true FileTree.maxLinks [] [name])
    (hvoid : Path.isVoid name = false) (hup : name ≠ ['.', '.']) :
    tidyTree.locate path =
      if name = ['A', '.', 'k', 't'] then .ok [name] else .error .notFound := by
  have hlookup : tidyTree.lookup ([] ++ [name]) = _ := lookup_tidyTree [name]
  rw [FileTree.locate, hresolve, FileTree.follow, if_neg (by simp [hvoid]), if_neg hup]
  simp only [hlookup, List.cons.injEq, and_true]
  by_cases hname : name = ['A', '.', 'k', 't']
  · rw [if_pos hname, if_pos hname]
    rfl
  · rw [if_neg hname, if_neg hname]
    rfl

theorem entry_tidyTree :
    tidyTree.entry ⟨"A.kt"⟩ = .ok (.file "public class A".toUTF8 ⟨1, 0⟩) := by
  have hloc : tidyTree.locate ⟨"A.kt"⟩ = .ok [['A', '.', 'k', 't']] :=
    locate_tidyTree ['A', '.', 'k', 't'] rfl (by decide) (by decide)
  exact FileTree.entry_eq_ok_iff.2 ⟨_, hloc, lookup_tidyTree _⟩

theorem settled_tidyTree : tidyTree.Settled ({} : Config).rules ⟨"A.kt"⟩ := by
  refine ⟨_, FileTree.read_eq_ok_iff.2 ⟨_, entry_tidyTree⟩, Rules.accepts_toUTF8.2 ?_⟩
  exact insertions_eq_nil_of_lines (by decide +kernel)

theorem files_tidyJob :
    tidyJob.files { noIgnore := true } tidyTree [⟨"A.kt"⟩] = .ok [⟨"A.kt"⟩] := by
  have hfile : tidyTree.isFile ⟨"A.kt"⟩ = true := by rw [FileTree.isFile, entry_tidyTree]
  have hselected : tidyJob.selection.withoutIgnoreFiles.selectsFile tidyTree ⟨"A.kt"⟩ = .ok true :=
    rfl
  have hfiles : Job.filesOf tidyJob.selection.withoutIgnoreFiles tidyTree ⟨"A.kt"⟩ =
      .ok [⟨"A.kt"⟩] := by
    rw [Job.filesOf, if_pos hfile, hselected]
    rfl
  have hadd : PathSet.toList (PathSet.addAll ∅ [⟨"A.kt"⟩]) = [⟨"A.kt"⟩] := rfl
  simp only [Job.files, Job.selectionFor, List.foldlM_nil, List.foldlM_cons, if_true, hfiles, bind,
    Except.bind, pure, Except.pure]
  rw [hadd]

theorem collisionFree_tidyScope : tidyScope.CollisionFree := by
  refine ⟨Set.injOn_singleton _ _, ?_⟩
  rintro c rfl d rfl -
  rfl

/-- The history opens a record and runs over the file. -/
theorem reachable_tidyWorld :
    tidyWorld.Reachable tidyScope [['c', '.', 'j', 's', 'o', 'n']] := by
  obtain ⟨c, hc⟩ : ∃ c, c = (Cache.mk ⟨"c.json"⟩ "" none ∅ true).bind ({} : Config).fingerprint :=
    ⟨_, rfl⟩
  have hholds : tidyScope.Holds tidyTree := fun _ _ _ h => (eq_of_lookup_tidyTree h).2
  have hloc : tidyTree.locate ⟨"c.json"⟩ = .error .notFound :=
    locate_tidyTree ['c', '.', 'j', 's', 'o', 'n'] rfl (by decide) (by decide)
  have hmake : Runner.make {} tidyTree (some ⟨"c.json"⟩) = .ok ⟨tidyJob, some c⟩ := by
    have hpath : tidyTree.hasPath ⟨"c.json"⟩ = false := FileTree.hasPath_of_locate_error hloc
    have hjob : Job.ofConfig {} = .ok tidyJob := rfl
    simp only [Runner.make, hjob, Cache.openAt, hpath, hc]
    rfl
  have hunknown : Runner.isKnown c tidyTree ⟨"A.kt"⟩ = false := by
    have hentry : c.entry? ⟨"A.kt"⟩ = none := by
      rw [hc]
      unfold Cache.bind
      split <;> rfl
    rw [Runner.isKnown, Cache.knows, hentry]
  obtain ⟨report, hrun⟩ := Runner.run_of_settled files_tidyJob settled_tidyTree hunknown
    (Stamp.read_of_entry entry_tidyTree) .epoch
  have hrecord : tidyRecord = c.insert ⟨"A.kt"⟩
      ⟨.ofNat "public class A".toUTF8.size, ⟨1, 0⟩, Stamp.hashOf "public class A".toUTF8⟩ := by
    rw [hc]
    rfl
  rw [← hrecord] at hrun
  have hgiven := Runner.mayGive_run ⟨tidyJob, some c⟩ { noIgnore := true } true .epoch tidyTree
    [⟨"A.kt"⟩]
  rw [hrun] at hgiven
  refine ⟨tidyTree, hholds, ?_, .tail (.single (.opened ?_ rfl hmake)) ?_⟩
  · intro content modified h
    cases (eq_of_lookup_tidyTree h).1
  · intro loc h
    cases hloc.symm.trans h
  · exact @Step.ran tidyScope _ tidyTree tidyTree [] [] _ _ _ _ _ _ _ hgiven hholds

theorem record_sound_tidyWorld :
    tidyWorld.Reachable tidyScope [['c', '.', 'j', 's', 'o', 'n']] ∧
      tidyWorld.HasRecord [['c', '.', 'j', 's', 'o', 'n']] tidyRecord ∧
      tidyRecord.IsSound tidyScope ∧ tidyTree.Settled ({} : Config).rules ⟨"A.kt"⟩ := by
  have hrecord : tidyWorld.HasRecord [['c', '.', 'j', 's', 'o', 'n']] tidyRecord :=
    .inl ⟨_, List.mem_singleton_self _, rfl⟩
  have hfingerprint : ({} : Config).fingerprint = tidyRecord.fingerprint :=
    (Cache.fingerprint_bind _ _).symm
  have hknows : tidyRecord.knows tidyTree ⟨"A.kt"⟩ = .ok true :=
    Cache.knows_insert _ (Stamp.read_of_entry entry_tidyTree)
  obtain ⟨hsound, hsettled⟩ := record_sound reachable_tidyWorld hrecord
  exact ⟨reachable_tidyWorld, hrecord, hsound,
    hsettled collisionFree_tidyScope {} rfl hfingerprint _ hknows⟩

end World

end ExplicitApi
