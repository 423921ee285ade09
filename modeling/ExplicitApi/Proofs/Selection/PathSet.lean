import ExplicitApi.Selection.Basic

/-! Sets of paths: what is in them after adding paths, and in which order they list it. -/
namespace ExplicitApi.PathSet

variable {s : PathSet} {path p : Path} {paths : List Path}

def IsKeyed (s : PathSet) : Prop := ∀ k p, (k, p) ∈ s.entries → k = p.components

theorem isKeyed_empty : IsKeyed ∅ := by
  intro k p h
  cases h

theorem mem_toList_iff (hs : s.IsKeyed) : p ∈ s.toList ↔ (p.components, p) ∈ s.entries := by
  constructor
  · intro h
    obtain ⟨⟨k, q⟩, hmem, rfl⟩ := List.mem_map.1 h
    rwa [← hs k q hmem]
  · exact fun h => List.mem_map.2 ⟨_, h, rfl⟩

theorem eq_of_components_eq (hs : s.IsKeyed) {q : Path} (hp : p ∈ s.toList) (hq : q ∈ s.toList)
    (h : p.components = q.components) : p = q := by
  have hpFind := OrderedMap.find?_eq_some_iff.2 ((mem_toList_iff hs).1 hp)
  have hqFind := OrderedMap.find?_eq_some_iff.2 ((mem_toList_iff hs).1 hq)
  rw [h] at hpFind
  exact Option.some.inj (hpFind.symm.trans hqFind)

theorem contains_iff (hs : s.IsKeyed) :
    OrderedMap.contains s path.components = true ↔
      ∃ q ∈ s.toList, q.components = path.components := by
  rw [OrderedMap.contains, Option.isSome_iff_exists]
  constructor
  · rintro ⟨q, hq⟩
    have hmem := OrderedMap.find?_eq_some_iff.1 hq
    have hkey := hs _ _ hmem
    exact ⟨q, (mem_toList_iff hs).2 (hkey ▸ hmem), hkey.symm⟩
  · rintro ⟨q, hq, hkey⟩
    exact ⟨q, OrderedMap.find?_eq_some_iff.2 (hkey ▸ (mem_toList_iff hs).1 hq)⟩

theorem IsKeyed.add (hs : s.IsKeyed) (path : Path) : (s.add path).IsKeyed := by
  intro k p h
  unfold PathSet.add OrderedMap.insertIfNew at h
  split at h
  · exact hs k p h
  · rcases OrderedMap.mem_insert_iff.1 h with ⟨rfl, rfl⟩ | ⟨-, hold⟩
    · rfl
    · exact hs k p hold

theorem IsKeyed.addAll (hs : s.IsKeyed) (paths : List Path) : (s.addAll paths).IsKeyed := by
  induction paths generalizing s with
  | nil => exact hs
  | cons path paths ih => exact ih (hs.add path)

/-- A path is added unless one with its components is there. -/
theorem mem_add_iff (hs : s.IsKeyed) :
    p ∈ (s.add path).toList ↔
      p ∈ s.toList ∨ p = path ∧ ∀ q ∈ s.toList, q.components ≠ path.components := by
  have hcontains : (∀ q ∈ s.toList, q.components ≠ path.components) ↔
      ¬OrderedMap.contains s path.components = true := by
    rw [contains_iff hs]
    simp
  rw [hcontains, mem_toList_iff (hs.add path), mem_toList_iff hs]
  unfold PathSet.add OrderedMap.insertIfNew
  split
  · next hold => simp [hold]
  · next hnew =>
    rw [OrderedMap.mem_insert_iff]
    constructor
    · rintro (⟨-, rfl⟩ | ⟨-, hmem⟩)
      · exact .inr ⟨rfl, hnew⟩
      · exact .inl hmem
    · rintro (hmem | ⟨rfl, -⟩)
      · refine .inr ⟨fun hkey => hnew ?_, hmem⟩
        rw [contains_iff hs]
        exact ⟨p, (mem_toList_iff hs).2 hmem, hkey⟩
      · exact .inl ⟨rfl, rfl⟩

theorem mem_of_mem_addAll (hs : s.IsKeyed) (h : p ∈ (s.addAll paths).toList) :
    p ∈ s.toList ∨ p ∈ paths := by
  induction paths generalizing s with
  | nil => exact .inl h
  | cons path paths ih =>
    rcases ih (hs.add path) h with hadd | hpaths
    · rcases (mem_add_iff hs).1 hadd with hold | ⟨rfl, -⟩
      · exact .inl hold
      · exact .inr List.mem_cons_self
    · exact .inr (List.mem_cons_of_mem _ hpaths)

theorem mem_addAll_of_mem (hs : s.IsKeyed) (h : p ∈ s.toList) (paths : List Path) :
    p ∈ (s.addAll paths).toList := by
  induction paths generalizing s with
  | nil => exact h
  | cons path paths ih => exact ih (hs.add path) ((mem_add_iff hs).2 (.inl h))

/-- Of each path that is added, one with its components is there. -/
theorem exists_mem_addAll (hs : s.IsKeyed) (h : p ∈ paths) :
    ∃ q ∈ (s.addAll paths).toList, q.components = p.components := by
  induction paths generalizing s with
  | nil => cases h
  | cons path paths ih =>
    rcases List.mem_cons.1 h with rfl | h
    · by_cases hold : ∃ q ∈ s.toList, q.components = p.components
      · obtain ⟨q, hq, hkey⟩ := hold
        exact ⟨q, mem_addAll_of_mem hs hq _, hkey⟩
      · have hnew : p ∈ (s.add p).toList :=
          (mem_add_iff hs).2 (.inr ⟨rfl, fun q hq hkey => hold ⟨q, hq, hkey⟩⟩)
        exact ⟨p, mem_addAll_of_mem (hs.add p) hnew paths, rfl⟩
    · exact ih (hs.add path) h

/-- Paths that are told apart by their components are all there. -/
theorem mem_addAll_empty_iff (h : ∀ q ∈ paths, ∀ r ∈ paths, q.components = r.components → q = r) :
    p ∈ (PathSet.addAll ∅ paths).toList ↔ p ∈ paths := by
  constructor
  · intro hp
    exact (mem_of_mem_addAll isKeyed_empty hp).resolve_left (List.not_mem_nil)
  · intro hp
    obtain ⟨q, hq, hkey⟩ := exists_mem_addAll isKeyed_empty hp
    have hqPaths : q ∈ paths :=
      (mem_of_mem_addAll isKeyed_empty hq).resolve_left (List.not_mem_nil)
    rwa [← h q hqPaths p hp hkey]

theorem pairwise_toList (hs : s.IsKeyed) : s.toList.Pairwise fun p q => compare p q = .lt := by
  rw [toList, OrderedMap.values, List.pairwise_map]
  refine s.increasing.imp_of_mem fun {a b} ha hb hlt => ?_
  rw [hs a.1 a.2 ha, hs b.1 b.2 hb] at hlt
  exact hlt

end ExplicitApi.PathSet
