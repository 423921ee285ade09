import ExplicitApi.Proofs.FileTree.Following

/-! What a walk comes upon: what lies below its root in directories, links to them not entered. -/
namespace ExplicitApi.FileTree

variable {t : FileTree} {top loc : Location} {root path : Path} {names : List (List Char)}

/-- Whether a walk that enters directories, not links, comes from `top` upon what names lead to. -/
inductive Reaches (t : FileTree) (top : Location) : List (List Char) → Prop
  | start : t.Reaches top []
  | enter {names : List (List Char)} {name : List Char} : t.Reaches top names →
      t.lookup (top ++ names) = some .directory → t.lookup (top ++ (names ++ [name])) ≠ none →
      t.Reaches top (names ++ [name])

theorem reaches_of_lookup {e : Entry} (h : t.lookup (top ++ names) = some e) :
    t.Reaches top names := by
  induction names using List.reverseRecOn generalizing e with
  | nil => exact .start
  | append_singleton names name ih =>
    have habove : t.lookup (top ++ names) = some .directory := by
      rw [← List.append_assoc] at h
      exact lookup_of_lookup_append (List.cons_ne_nil _ _) h
    exact .enter (ih habove) habove (by rw [h]; exact Option.some_ne_none e)

theorem reaches_iff (htop : t.lookup top ≠ none) :
    t.Reaches top names ↔ t.lookup (top ++ names) ≠ none := by
  constructor
  · intro h
    cases h with
    | start => rwa [List.append_nil]
    | enter _ _ hfound => exact hfound
  · intro h
    obtain ⟨e, he⟩ := Option.ne_none_iff_exists'.1 h
    exact reaches_of_lookup he

theorem Reaches.all_isName (h : t.Reaches top names) : names.all Path.isName = true := by
  cases h with
  | start => rfl
  | enter _ _ hfound =>
    obtain ⟨e, he⟩ := Option.ne_none_iff_exists'.1 hfound
    have hall := all_isName_of_lookup he
    rw [List.all_append, Bool.and_eq_true] at hall
    exact hall.2

theorem mem_inside_iff {e : Entry} :
    (loc, e) ∈ t.inside top ↔ t.lookup loc = some e ∧ ∃ names, names ≠ [] ∧ loc = top ++ names := by
  have hbelow : (top.isPrefixOf loc && loc != top) = true ↔
      ∃ names, names ≠ [] ∧ loc = top ++ names := by
    rw [Bool.and_eq_true, List.isPrefixOf_iff_prefix, bne_iff_ne]
    constructor
    · rintro ⟨⟨names, rfl⟩, hne⟩
      exact ⟨names, by simpa using hne, rfl⟩
    · rintro ⟨names, hne, rfl⟩
      exact ⟨List.prefix_append top names, by simpa using hne⟩
  rw [inside, List.mem_filter, hbelow]
  refine and_congr_left fun ⟨names, hne, hloc⟩ => ?_
  have hloc : loc ≠ [] := by simp [hloc, hne]
  rw [lookup_of_ne_nil t hloc, OrderedMap.find?_eq_some_iff]

/-- A walk lists exactly what it reaches. -/
theorem mem_walk_iff (htop : t.locate root = .ok top)
    (hdirectory : t.lookup top = some .directory) :
    path ∈ t.walk root ↔ ∃ names, t.Reaches top names ∧ path = root.descend names := by
  have hreaches : ∀ names, t.Reaches top names ↔ t.lookup (top ++ names) ≠ none := fun names =>
    reaches_iff (by rw [hdirectory]; exact Option.some_ne_none _)
  have hisDirectory : t.isDirectoryAt top = true := by simp [isDirectoryAt, hdirectory]
  rw [walk, htop]
  simp only [hisDirectory, if_true, List.mem_cons, List.mem_map]
  constructor
  · rintro (rfl | ⟨⟨loc, e⟩, hinside, rfl⟩)
    · exact ⟨[], .start, rfl⟩
    · obtain ⟨hlookup, names, -, rfl⟩ := mem_inside_iff.1 hinside
      refine ⟨names, reaches_of_lookup hlookup, ?_⟩
      rw [List.drop_left]
      rfl
  · rintro ⟨names, hnames, rfl⟩
    by_cases hne : names = []
    · rw [hne]
      exact .inl rfl
    · obtain ⟨e, he⟩ := Option.ne_none_iff_exists'.1 ((hreaches names).1 hnames)
      refine .inr ⟨(top ++ names, e), mem_inside_iff.2 ⟨he, names, hne, rfl⟩, ?_⟩
      dsimp only
      rw [List.drop_left]
      rfl

end ExplicitApi.FileTree
