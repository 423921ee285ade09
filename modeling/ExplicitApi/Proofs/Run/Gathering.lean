import ExplicitApi.Proofs.Run.Listing
import ExplicitApi.Proofs.Sorting

/-!
The files of several paths against those of each path alone. Main statement: neither the order of the
paths nor their repetition matters, the files of all are those of each, and a limit keeps the first.
-/
namespace ExplicitApi.Job

variable {j : Job} {options : Options} {s : Selection} {t : FileTree} {paths others files : List Path}
  {set : PathSet} {k : List Path.Component}

/-- Whether both listings fail, or both list the same paths, up to their spelling. -/
def ListAlike : Except Error (List Path) → Except Error (List Path) → Prop
  | .ok files, .ok files' => files.map Path.components = files'.map Path.components
  | .error _, .error _ => True
  | _, _ => False

/-- A set that gathers the files of some paths holds their components and no others. -/
theorem Gathers.mem_components_iff (h : Gathers s t paths set) :
    k ∈ set.toList.map Path.components ↔
      ∃ path ∈ paths, ∃ found, filesOf s t path = .ok found ∧ k ∈ found.map Path.components := by
  constructor
  · intro hk
    obtain ⟨p, hp, rfl⟩ := List.mem_map.1 hk
    obtain ⟨path, hpath, found, hfound, hmem⟩ := h.from_paths p hp
    exact ⟨path, hpath, found, hfound, List.mem_map_of_mem hmem⟩
  · rintro ⟨path, hpath, found, hfound, hk⟩
    obtain ⟨p, hp, rfl⟩ := List.mem_map.1 hk
    obtain ⟨found', hfound', hall⟩ := h.complete path hpath
    cases hfound.symm.trans hfound'
    obtain ⟨q, hq, hsame⟩ := hall p hp
    exact List.mem_map.2 ⟨q, hq, hsame⟩

/-- Paths are listed exactly when the selection is valid and each of them can be listed. -/
theorem exists_files_iff : (∃ files, j.files options t paths = .ok files) ↔
    ∃ s, j.selectionFor options = .ok s ∧
      ∀ path ∈ paths, ∃ found, filesOf s t path = .ok found := by
  constructor
  · rintro ⟨files, h⟩
    obtain ⟨s, set, hs, hgathers, -⟩ := exists_gathers_of_files h
    exact ⟨s, hs, fun path hpath => (hgathers.complete path hpath).imp fun _ => And.left⟩
  · rintro ⟨s, hs, hpaths⟩
    have hstep : ∀ path ∈ paths, ∀ set : PathSet, ∃ set',
        (do return PathSet.addAll set (← filesOf s t path)) = Except.ok (ε := Error) set' := by
      intro path hpath set
      obtain ⟨found, hfound⟩ := hpaths path hpath
      exact ⟨set.addAll found, by rw [hfound]; rfl⟩
    obtain ⟨set, hset⟩ := exists_foldlM_eq_ok hstep ∅
    rw [files, hs, ok_bind, hset]
    exact ⟨_, rfl⟩

theorem files_of_limit (n : Nat) :
    j.files { options with maxFiles := some n } t paths =
      (j.files { options with maxFiles := none } t paths).map (List.take n) := by
  have hselection : ∀ limit, j.selectionFor { options with maxFiles := limit } =
      j.selectionFor options := fun _ => rfl
  simp only [files, hselection]
  cases j.selectionFor options with
  | error e => rfl
  | ok s =>
    rw [ok_bind, ok_bind]
    cases paths.foldlM (fun files path => do return PathSet.addAll files (← filesOf s t path)) ∅ with
    | error e => rfl
    | ok set => rfl

section Unlimited

variable (hmax : options.maxFiles = none)
include hmax

theorem mem_components_files_iff (hs : j.selectionFor options = .ok s)
    (h : j.files options t paths = .ok files) :
    k ∈ files.map Path.components ↔
      ∃ path ∈ paths, ∃ found, filesOf s t path = .ok found ∧ k ∈ found.map Path.components := by
  obtain ⟨s', set, hs', hgathers, -, hwhole⟩ := exists_gathers_of_files h
  cases hs.symm.trans hs'
  rw [hwhole hmax, hgathers.mem_components_iff]

/-- The files of several paths are those of each alone. -/
theorem mem_components_files_iff_alone (h : j.files options t paths = .ok files) :
    k ∈ files.map Path.components ↔
      ∃ path ∈ paths, ∃ found, j.files options t [path] = .ok found ∧
        k ∈ found.map Path.components := by
  obtain ⟨s, hs, hpaths⟩ := exists_files_iff.1 ⟨files, h⟩
  rw [mem_components_files_iff hmax hs h]
  refine exists_congr fun path => and_congr_right fun hpath => ?_
  obtain ⟨alone, halone⟩ : ∃ alone, j.files options t [path] = .ok alone :=
    exists_files_iff.2 ⟨s, hs, fun p hp => hpaths p (by rwa [List.mem_singleton.1 hp])⟩
  have hk := mem_components_files_iff (k := k) hmax hs halone
  simp only [List.mem_singleton, exists_eq_left] at hk
  rw [← hk, halone]
  simp

theorem listAlike_of_mem_iff_of_unlimited (h : ∀ p, p ∈ others ↔ p ∈ paths) :
    ListAlike (j.files options t others) (j.files options t paths) := by
  have hok : (∃ files, j.files options t others = .ok files) ↔
      ∃ files, j.files options t paths = .ok files := by
    rw [exists_files_iff, exists_files_iff]
    simp only [h]
  cases hothers : j.files options t others with
  | error e =>
    cases hfiles : j.files options t paths with
    | error e' => trivial
    | ok files =>
      obtain ⟨files', hfiles'⟩ := hok.2 ⟨files, hfiles⟩
      cases hothers.symm.trans hfiles'
  | ok files' =>
    obtain ⟨files, hfiles⟩ := hok.1 ⟨files', hothers⟩
    rw [hfiles]
    -- both lists are in strict order, so it is enough that they hold the same components
    refine Sorting.eq_of_mem_iff (List.pairwise_map.2 (pairwise_files hothers))
      (List.pairwise_map.2 (pairwise_files hfiles)) fun k => ?_
    rw [mem_components_files_iff_alone hmax hothers, mem_components_files_iff_alone hmax hfiles]
    simp only [h]

end Unlimited

theorem ListAlike.take {a b : Except Error (List Path)} (h : ListAlike a b) (n : Nat) :
    ListAlike (a.map (List.take n)) (b.map (List.take n)) := by
  cases a with
  | error e =>
    cases b with
    | error e' => trivial
    | ok files' => exact h
  | ok files =>
    cases b with
    | error e' => exact h
    | ok files' =>
      have hcomponents : files.map Path.components = files'.map Path.components := h
      change (files.take n).map Path.components = (files'.take n).map Path.components
      rw [List.map_take, List.map_take, hcomponents]

theorem listAlike_of_mem_iff (h : ∀ p, p ∈ others ↔ p ∈ paths) :
    ListAlike (j.files options t others) (j.files options t paths) := by
  have hunlimited : ListAlike (j.files { options with maxFiles := none } t others)
      (j.files { options with maxFiles := none } t paths) :=
    listAlike_of_mem_iff_of_unlimited rfl h
  cases hmax : options.maxFiles with
  | none =>
    have hoptions : options = { options with maxFiles := none } := by rw [← hmax]
    rwa [hoptions]
  | some n =>
    have hoptions : options = { options with maxFiles := some n } := by rw [← hmax]
    rw [hoptions, files_of_limit, files_of_limit]
    exact hunlimited.take n

/--
The files of some paths are those of each path, whatever their order and repetition; a limit takes
the first of them.
-/
theorem files_gathered (j : Job) (options : Options) (t : FileTree) (paths : List Path) :
    let whole := j.files { options with maxFiles := none } t
    (∀ others : List Path, (∀ p, p ∈ others ↔ p ∈ paths) →
      ListAlike (j.files options t others) (j.files options t paths)) ∧
    (∀ files, j.files options t paths = .ok files →
      files.Pairwise fun p q => compare p q = .lt) ∧
    ((∃ files, whole paths = .ok files) ↔
      (∃ s, j.selectionFor options = .ok s) ∧ ∀ path ∈ paths, ∃ found, whole [path] = .ok found) ∧
    (∀ files, whole paths = .ok files → ∀ k, k ∈ files.map Path.components ↔
      ∃ path ∈ paths, ∃ found, whole [path] = .ok found ∧ k ∈ found.map Path.components) ∧
    ∀ n, j.files { options with maxFiles := some n } t paths = (whole paths).map (List.take n) := by
  intro whole
  refine ⟨fun others h => listAlike_of_mem_iff h, fun files h => pairwise_files h, ?_,
    fun files h k => mem_components_files_iff_alone rfl h, files_of_limit⟩
  have hwhole : ∀ paths, (∃ files, whole paths = .ok files) ↔
      ∃ s, j.selectionFor options = .ok s ∧
        ∀ path ∈ paths, ∃ found, filesOf s t path = .ok found := fun _ => exists_files_iff
  simp only [hwhole]
  constructor
  · rintro ⟨s, hs, hpaths⟩
    refine ⟨⟨s, hs⟩, fun path hpath => ⟨s, hs, fun p hp => ?_⟩⟩
    rw [List.mem_singleton.1 hp]
    exact hpaths path hpath
  · rintro ⟨⟨s, hs⟩, hpaths⟩
    refine ⟨s, hs, fun path hpath => ?_⟩
    obtain ⟨s', hs', hpath⟩ := hpaths path hpath
    cases hs.symm.trans hs'
    exact hpath path (List.mem_singleton_self path)

open Selection (sourceTree)

theorem files_sourceTree {first : Path} {paths : List Path}
    (hpaths : ∀ p ∈ paths, p = ⟨"src/A.kt"⟩ ∨ p = ⟨"src//A.kt"⟩)
    (hfirst : (PathSet.addAll ∅ paths).toList = [first]) :
    sourceJob.files { noIgnore := true } sourceTree paths = .ok [first] := by
  rw [← hfirst]
  refine files_of_isFile rfl rfl fun p hp => ?_
  rcases hpaths p hp with rfl | rfl
  · exact ⟨locate_sourceTree_plain.2, rfl⟩
  · exact ⟨(locate_sourceTree (.inl ⟨rfl, rfl⟩) (by decide) (by decide)).2, rfl⟩

theorem files_gathered_sourceTree :
    let paths := [Path.mk "src/A.kt", ⟨"src//A.kt"⟩]
    let others := [Path.mk "src//A.kt", ⟨"src/A.kt"⟩, ⟨"src//A.kt"⟩]
    (∀ p, p ∈ others ↔ p ∈ paths) ∧
      sourceJob.files { noIgnore := true } sourceTree others = .ok [⟨"src//A.kt"⟩] ∧
      sourceJob.files { noIgnore := true } sourceTree paths = .ok [⟨"src/A.kt"⟩] ∧
      [Path.mk "src//A.kt"].map Path.components = [Path.mk "src/A.kt"].map Path.components ∧
      [Path.mk "src/A.kt"].Pairwise (fun p q => compare p q = .lt) ∧
      ∀ k, k ∈ [Path.mk "src/A.kt"].map Path.components ↔ ∃ path ∈ paths, ∃ found,
        sourceJob.files { noIgnore := true } sourceTree [path] = .ok found ∧
          k ∈ found.map Path.components := by
  intro paths others
  have hmembers : ∀ p, p ∈ others ↔ p ∈ paths := by
    intro p
    simp only [paths, others, List.mem_cons, List.not_mem_nil, or_false]
    tauto
  have hothers : sourceJob.files { noIgnore := true } sourceTree others = .ok [⟨"src//A.kt"⟩] :=
    files_sourceTree (by simp [others]) (by decide)
  have hpaths : sourceJob.files { noIgnore := true } sourceTree paths = .ok [⟨"src/A.kt"⟩] :=
    files_sourceTree (by simp [paths]) (by decide)
  obtain ⟨halike, hordered, -, hunion, -⟩ :=
    files_gathered sourceJob { noIgnore := true } sourceTree paths
  have hsame := halike others hmembers
  rw [hothers, hpaths] at hsame
  exact ⟨hmembers, hothers, hpaths, hsame, hordered _ hpaths, hunion _ hpaths⟩

end ExplicitApi.Job
