import ExplicitApi.Proofs.Qualify.Insertions
import ExplicitApi.Qualify.Offsets

/-!
Byte offsets into a text. Main statements: the window in front of an offset is missing exactly
beyond the text and inside a character, and is otherwise the longest end of the text before it that
fits.
-/
namespace ExplicitApi.Qualify

section Sizes

theorem byteSize_append (s t : List Char) : byteSize (s ++ t) = byteSize s + byteSize t := by
  induction s with
  | nil => exact (Nat.zero_add _).symm
  | cons c s ih => rw [List.cons_append, byteSize, ih, byteSize, Nat.add_assoc]

theorem byteSize_toList (s : String) : byteSize s.toList = s.utf8ByteSize := by
  rw [utf8ByteSize_eq_sum]
  induction s.toList with
  | nil => rfl
  | cons c s ih => rw [byteSize, ih, List.map_cons, List.sum_cons]

end Sizes

section Boundaries

variable {s : List Char} {size : Nat}

/-- Whether an offset lies behind the first byte of a character and in front of the next one. -/
def InsideCharacter (s : List Char) (offset : Nat) : Prop :=
  ∃ front c back, s = front ++ c :: back ∧ byteSize front < offset ∧
    offset < byteSize front + c.utf8Size

theorem takeBytes_eq_some_iff {front : List Char} :
    takeBytes s size = some front ↔ ∃ back, front ++ back = s ∧ byteSize front = size := by
  have hnil : ∀ {front : List Char}, byteSize front = 0 → front = [] := by
    rintro (_ | ⟨c, front⟩) h
    · rfl
    · have hpos := c.utf8Size_pos
      rw [byteSize] at h
      omega
  fun_induction takeBytes s size generalizing front with
  | case1 s =>
    constructor
    · rintro ⟨⟩
      exact ⟨s, rfl, rfl⟩
    · rintro ⟨back, -, h⟩
      rw [hnil h]
  | case2 n =>
    constructor
    · nofun
    · rintro ⟨back, heq, h⟩
      rw [(List.append_eq_nil_iff.1 heq).1] at h
      cases h
  | case3 c s size hne hle ih =>
    simp only [Option.map_eq_some_iff, ih]
    constructor
    · rintro ⟨front, ⟨back, rfl, h⟩, rfl⟩
      exact ⟨back, rfl, by rw [byteSize]; omega⟩
    · rintro ⟨back, heq, h⟩
      cases front with
      | nil => exact absurd h.symm hne
      | cons d front =>
        cases heq
        rw [byteSize] at h
        exact ⟨front, ⟨back, rfl, by omega⟩, rfl⟩
  | case4 c s size hne hgt =>
    constructor
    · nofun
    · rintro ⟨back, heq, h⟩
      cases front with
      | nil => exact absurd h.symm hne
      | cons d front =>
        cases heq
        rw [byteSize] at h
        omega

theorem insideCharacter_cons {c : Char} :
    InsideCharacter (c :: s) size ↔
      (0 < size ∧ size < c.utf8Size) ∨
        (c.utf8Size ≤ size ∧ InsideCharacter s (size - c.utf8Size)) := by
  constructor
  · rintro ⟨front, d, back, heq, hlt, hgt⟩
    cases front with
    | nil =>
      cases heq
      exact .inl ⟨hlt, by simpa [byteSize] using hgt⟩
    | cons c front =>
      cases heq
      rw [byteSize] at hlt hgt
      exact .inr ⟨by omega, front, d, back, rfl, by omega, by omega⟩
  · rintro (⟨hlt, hgt⟩ | ⟨hle, front, d, back, rfl, hlt, hgt⟩)
    · exact ⟨[], c, s, rfl, hlt, by simpa [byteSize] using hgt⟩
    · refine ⟨c :: front, d, back, rfl, ?_, ?_⟩ <;> rw [byteSize] <;> omega

theorem takeBytes_eq_none_iff :
    takeBytes s size = none ↔ byteSize s < size ∨ InsideCharacter s size := by
  fun_induction takeBytes s size with
  | case1 s => simp [InsideCharacter]
  | case2 n => simp [byteSize]
  | case3 c s size hne hle ih =>
    rw [Option.map_eq_none_iff, ih, insideCharacter_cons, byteSize]
    have hbeyond : byteSize s < size - c.utf8Size ↔ c.utf8Size + byteSize s < size := by omega
    have hfar : ¬(0 < size ∧ size < c.utf8Size) := by omega
    simp only [hbeyond, hfar, hle, false_or, true_and]
  | case4 c s size hne hgt =>
    rw [insideCharacter_cons]
    exact iff_of_true rfl (.inr (.inl ⟨Nat.pos_of_ne_zero hne, Nat.lt_of_not_le hgt⟩))

/-- A valid position is one behind some of the characters. -/
theorem isValid_iff {text : String} {offset : Nat} :
    String.Pos.Raw.IsValid text ⟨offset⟩ ↔
      ∃ front back, front ++ back = text.toList ∧ byteSize front = offset := by
  rw [String.Pos.Raw.isValid_iff_exists_append]
  constructor
  · rintro ⟨front, back, rfl, hoffset⟩
    refine ⟨front.toList, back.toList, String.toList_append.symm, ?_⟩
    rw [byteSize_toList]
    exact (congrArg String.Pos.Raw.byteIdx hoffset).symm
  · rintro ⟨front, back, heq, rfl⟩
    refine ⟨String.ofList front, String.ofList back, ?_, ?_⟩
    · rw [← String.ofList_append, heq, String.ofList_toList]
    · rw [String.Pos.Raw.ext_iff, String.byteIdx_rawEndPos, ← byteSize_toList, String.toList_ofList]

end Boundaries

section Window

variable {text : String} {offset : Nat}

theorem windowAt?_eq_none_iff :
    windowAt? text offset = none ↔
      text.utf8ByteSize < offset ∨ InsideCharacter text.toList offset := by
  rw [windowAt?, Option.map_eq_none_iff, takeBytes_eq_none_iff, byteSize_toList]

/-- Whether an end of a text is the longest one of its ends that fits into a window. -/
structure IsLongestEnd (s w : List Char) : Prop where
  isEnd : w <:+ s
  fits : w.length ≤ 10
  longest : ∀ w', w' <:+ s → w'.length ≤ 10 → w'.length ≤ w.length

theorem isLongestEnd_window (s : List Char) : IsLongestEnd s (window s.reverse) where
  isEnd := List.reverse_prefix.1 (by simpa [window] using List.take_prefix windowLength s.reverse)
  fits := by
    rw [window, List.length_reverse]
    exact List.length_take_le _ _
  longest := by
    intro w' hend hfits
    have hlength := hend.length_le
    simp only [window, windowLength, List.length_reverse, List.length_take]
    omega

theorem IsLongestEnd.eq_window {s w : List Char} (h : IsLongestEnd s w) : w = window s.reverse := by
  have hwindow := isLongestEnd_window s
  have hlength := Nat.le_antisymm (hwindow.longest w h.isEnd h.fits)
    (h.longest _ hwindow.isEnd hwindow.fits)
  exact (List.suffix_of_suffix_length_le h.isEnd hwindow.isEnd hlength.le).eq_of_length hlength

theorem windowAt?_eq_some_iff {w : String} :
    windowAt? text offset = some w ↔
      ∃ front back : String, text = front ++ back ∧ front.utf8ByteSize = offset ∧
        IsLongestEnd front.toList w.toList := by
  simp only [windowAt?, Option.map_eq_some_iff, takeBytes_eq_some_iff]
  constructor
  · rintro ⟨front, ⟨back, heq, rfl⟩, rfl⟩
    refine ⟨String.ofList front, String.ofList back, ?_, ?_, ?_⟩
    · rw [← String.ofList_append, heq, String.ofList_toList]
    · rw [← byteSize_toList, String.toList_ofList]
    · rw [String.toList_ofList, String.toList_ofList]
      exact isLongestEnd_window front
  · rintro ⟨front, back, rfl, rfl, hlongest⟩
    refine ⟨front.toList, ⟨back.toList, String.toList_append.symm, byteSize_toList front⟩, ?_⟩
    rw [← hlongest.eq_window, String.ofList_toList]

end Window

end ExplicitApi.Qualify
