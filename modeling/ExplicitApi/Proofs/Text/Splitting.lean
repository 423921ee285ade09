import Mathlib.Data.List.Basic
import Mathlib.Tactic.SplitIfs

/-! Texts cut at a separator, what their last piece says about their end, and texts of numbers. -/
namespace ExplicitApi.Text

theorem notMem_of_mem_splitOn (separator : Char) (s : List Char) :
    ∀ piece ∈ s.splitOn separator, separator ∉ piece := by
  intro piece hpiece
  induction s generalizing piece with
  | nil => simp_all
  | cons c s ih =>
    rw [List.splitOn_cons_eq_if_modifyHead] at hpiece
    split_ifs at hpiece with hc
    · rcases List.mem_cons.1 hpiece with rfl | hpiece
      · simp
      · exact ih _ hpiece
    · cases hs : s.splitOn separator with
      | nil => exact absurd hs (List.splitOn_ne_nil _ _)
      | cons first rest =>
        rw [hs, List.modifyHead_cons] at hpiece
        rcases List.mem_cons.1 hpiece with rfl | hpiece
        · rw [List.mem_cons, not_or]
          exact ⟨fun h => hc (by simp [← h]), ih first (by simp [hs])⟩
        · exact ih _ (by simp [hs, hpiece])

theorem splitOn_eq_singleton {separator : Char} {s : List Char} (h : separator ∉ s) :
    s.splitOn separator = [s] := by
  refine List.splitOnP_eq_singleton fun c hc => ?_
  have hne : c ≠ separator := fun heq => h (heq ▸ hc)
  simpa using hne

/-- The last piece is empty for the empty text and for one that ends in the separator. -/
theorem getLast?_splitOn_eq_nil_iff (separator : Char) (s : List Char) :
    (s.splitOn separator).getLast? = some [] ↔ s = [] ∨ s.getLast? = some separator := by
  induction s with
  | nil => simp
  | cons c s ih =>
    rw [List.splitOn_cons_eq_if_modifyHead]
    obtain ⟨first, rest, hs⟩ := List.exists_cons_of_ne_nil (List.splitOn_ne_nil separator s)
    rw [hs] at ih ⊢
    by_cases hc : c = separator
    · have hend : (c :: s).getLast? = some separator ↔ s = [] ∨ s.getLast? = some separator := by
        cases s <;> simp [hc]
      rw [if_pos (by simp [hc]), hend, List.getLast?_cons_cons, ih]
      simp
    · have hend : (c :: s).getLast? = some separator ↔ s ≠ [] ∧ s.getLast? = some separator := by
        cases s <;> simp [hc]
      rw [if_neg (by simpa using hc), hend]
      cases rest with
      | nil =>
        -- a text of one piece is that piece
        have hwhole : [separator].intercalate (s.splitOn separator) = s :=
          List.intercalate_splitOn separator
        have hfirst : s = first := by
          simpa [hs] using hwhole.symm
        have hnot : ¬(s ≠ [] ∧ s.getLast? = some separator) := by
          rintro ⟨hne, hlast⟩
          have hnil : first = [] := by simpa using ih.2 (.inr hlast)
          exact hne (hfirst.trans hnil)
        simp [hnot]
      | cons second rest =>
        have hne : s ≠ [] := by
          rintro rfl
          simp at hs
        simpa [hne] using ih

theorem notMem_toDigits {c : Char} (hc : c.isDigit = false) (n : Nat) : c ∉ Nat.toDigits 10 n := by
  intro hmem
  rw [Nat.isDigit_of_mem_toDigits (by decide) (by decide) hmem] at hc
  cases hc

theorem notMem_toString {c : Char} (hc : c.isDigit = false) (n : Nat) :
    c ∉ (toString n).toList := by
  simpa using notMem_toDigits hc n

end ExplicitApi.Text
