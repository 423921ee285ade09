import ExplicitApi.Qualify.Lookback
import Mathlib.Data.List.DropRight

/-! Whole words of a text, said by where they stand, and what a text in front leaves of them. -/
namespace ExplicitApi.Qualify

/-- White space is never part of a word. -/
theorem isWord_of_isBlank {c : Char} (hc : Text.isBlank c = true) : Text.isWord c = false := by
  let codes := [0x9, 0xA, 0xB, 0xC, 0xD, 0x20, 0x85, 0xA0, 0x1680, 0x2000, 0x2001, 0x2002, 0x2003,
    0x2004, 0x2005, 0x2006, 0x2007, 0x2008, 0x2009, 0x200A, 0x2028, 0x2029, 0x202F, 0x205F, 0x3000]
  have hmem : c.toNat ∈ codes := by
    simp only [Text.isBlank, Bool.or_eq_true, Bool.and_eq_true, decide_eq_true_eq, beq_iff_eq] at hc
    simp only [codes, List.mem_cons, List.not_mem_nil]
    omega
  have hcodes : ∀ n ∈ codes, Text.isWord (Char.ofNat n) = false := by decide +kernel
  simpa using hcodes _ hmem

theorem isBlank_of_isWord {c : Char} (hc : Text.isWord c = true) : Text.isBlank c = false := by
  by_contra hblank
  rw [isWord_of_isBlank (by simpa using hblank)] at hc
  cases hc

def EndsApart (s : List Char) : Prop := ∀ c ∈ s.getLast?, Text.isWord c = false

/-- Whether `word` stands in `s` with no word character on either side of it. -/
def HasWord (word s : List Char) : Prop :=
  ∃ before after, s = before ++ word ++ after ∧ EndsApart before ∧
    ∀ c ∈ after.head?, Text.isWord c = false

def HasQualifier (s : List Char) : Prop := ∃ q : Qualifier, HasWord q.text.toList s

theorem opensWithWord_iff {s word : List Char} :
    opensWithWord s word = true ↔
      ∃ after, s = word ++ after ∧ ∀ c ∈ after.head?, Text.isWord c = false := by
  unfold opensWithWord
  cases found : Text.afterPhrase? word s with
  | none =>
    have hnone : ∀ after, s ≠ word ++ after := fun after hs => by
      simp [Text.afterPhrase?_eq_some_iff.2 hs.symm] at found
    simp [hnone]
  | some rest =>
    have hs := Text.afterPhrase?_eq_some_iff.1 found
    subst hs
    cases rest <;> simp

/-- A word is found where the character before it, in the text or `previous`, does not touch it. -/
theorem holdsWord_iff {words : List (List Char)} (hne : ∀ word ∈ words, word ≠ [])
    (previous : Option Char) (s : List Char) :
    holdsWord words previous s = true ↔
      ∃ word ∈ words, ∃ before after, s = before ++ word ++ after ∧
        (∀ c ∈ before.getLast?.or previous, Text.isWord c = false) ∧
        ∀ c ∈ after.head?, Text.isWord c = false := by
  induction s generalizing previous with
  | nil =>
    simp only [holdsWord, Bool.false_eq_true, false_iff]
    rintro ⟨word, hw, before, after, hs, -⟩
    have := hne word hw
    simp_all
  | cons c s ih =>
    have hhere : (!previous.any Text.isWord && words.any (opensWithWord (c :: s))) = true ↔
        ∃ word ∈ words, ∃ after, c :: s = word ++ after ∧
          (∀ c ∈ previous, Text.isWord c = false) ∧ ∀ c ∈ after.head?, Text.isWord c = false := by
      simp only [Bool.and_eq_true, Bool.not_eq_true', List.any_eq_true, opensWithWord_iff]
      cases previous
      · simp
      · simp; tauto
    rw [holdsWord, Bool.or_eq_true, hhere, ih]
    constructor
    · rintro (⟨word, hw, after, hs, hb, ha⟩ | ⟨word, hw, before, after, hs, hb, ha⟩)
      · exact ⟨word, hw, [], after, hs, by simpa using hb, ha⟩
      · refine ⟨word, hw, c :: before, after, by simp [hs], ?_, ha⟩
        rw [List.getLast?_cons]
        cases hl : before.getLast? <;> simp_all
    · rintro ⟨word, hw, before, after, hs, hb, ha⟩
      cases before with
      | nil => exact .inl ⟨word, hw, after, by simpa using hs, by simpa using hb, ha⟩
      | cons b before =>
        simp only [List.cons_append, List.cons.injEq] at hs
        obtain ⟨rfl, hs⟩ := hs
        refine .inr ⟨word, hw, before, after, hs, ?_, ha⟩
        rw [List.getLast?_cons] at hb
        cases hl : before.getLast? <;> simp_all

theorem holdsQualifier_iff (s : List Char) : holdsQualifier s = true ↔ HasQualifier s := by
  have hne : ∀ word ∈ Qualifier.all.map fun q => q.text.toList, word ≠ [] := by decide
  rw [holdsQualifier, holdsWord_iff hne]
  constructor
  · rintro ⟨word, hw, before, after, hs, hb, ha⟩
    obtain ⟨q, -, rfl⟩ := List.mem_map.1 hw
    exact ⟨q, before, after, hs, by simpa [EndsApart] using hb, ha⟩
  · rintro ⟨q, before, after, hs, hb, ha⟩
    have hq : q ∈ Qualifier.all := by cases q <;> decide
    exact ⟨_, List.mem_map_of_mem hq, before, after, hs, by simpa [EndsApart] using hb, ha⟩

instance (s : List Char) : Decidable (HasQualifier s) :=
  decidable_of_iff _ (holdsQualifier_iff s)

/-- A text in front that is too short for a word and does not touch what follows adds none. -/
theorem hasWord_append {word front s : List Char} (hw : ∀ c ∈ word, Text.isWord c = true)
    (hlen : front.length < word.length) (hfront : EndsApart front) :
    HasWord word (front ++ s) ↔ HasWord word s := by
  constructor
  · rintro ⟨before, after, hs, hb, ha⟩
    rw [List.append_assoc] at hs
    rcases List.append_eq_append_iff.1 hs with ⟨inner, rfl, hrest⟩ | ⟨inner, rfl, hrest⟩
    · refine ⟨inner, after, by rw [hrest, List.append_assoc], ?_, ha⟩
      intro c hc
      exact hb c (by rw [List.getLast?_append, hc]; rfl)
    · -- Were a piece of the word in front, that would end in a word character.
      rcases List.eq_nil_or_concat' inner with rfl | ⟨inner, c, rfl⟩
      · exact ⟨[], after, by simpa using hrest.symm, by simp [EndsApart], ha⟩
      · have hlast : Text.isWord c = false := hfront c (by simp [List.getLast?_append])
        have hpart : inner ++ [c] <+: word := by
          refine List.prefix_of_prefix_length_le ⟨s, hrest.symm⟩ ⟨after, rfl⟩ ?_
          simp only [List.length_append] at hlen ⊢
          omega
        have hmem : c ∈ word := hpart.subset (by simp)
        rw [hw c hmem] at hlast
        exact absurd hlast (by decide)
  · rintro ⟨before, after, rfl, hb, ha⟩
    refine ⟨front ++ before, after, by simp, ?_, ha⟩
    intro c hc
    rw [List.getLast?_append] at hc
    cases hl : before.getLast? with
    | none => exact hfront c (by simpa [hl] using hc)
    | some d => exact hb c (by simpa [hl] using hc)

theorem isWord_of_mem_qualifier (q : Qualifier) : ∀ c ∈ q.text.toList, Text.isWord c = true := by
  have hall : q.text.toList.all Text.isWord = true := by cases q <;> decide
  exact List.all_eq_true.1 hall

theorem six_le_length_qualifier (q : Qualifier) : 6 ≤ q.text.toList.length := by
  cases q <;> decide

theorem hasQualifier_append {front s : List Char} (hlen : front.length < 6)
    (hfront : EndsApart front) : HasQualifier (front ++ s) ↔ HasQualifier s := by
  refine exists_congr fun q => hasWord_append (isWord_of_mem_qualifier q) ?_ hfront
  have := six_le_length_qualifier q
  omega

theorem EndsApart.drop {s : List Char} (hs : EndsApart s) (n : Nat) : EndsApart (s.drop n) := by
  intro c hc
  rw [List.getLast?_drop] at hc
  split at hc
  · simp at hc
  · exact hs c hc

/-- Behind at most four characters the window has room for five more, too few for a qualifier. -/
theorem hasQualifier_rtake_append {front s : List Char} (hs : 5 ≤ s.length)
    (hfront : EndsApart front) :
    HasQualifier ((front ++ s).rtake windowLength) ↔ HasQualifier (s.rtake windowLength) := by
  let n := (front ++ s).length - windowLength
  have hcut : (front ++ s).rtake windowLength = front.drop n ++ s.rtake windowLength := by
    have hn : n - front.length = s.length - windowLength := by
      simp only [n, List.length_append]
      omega
    rw [List.rtake, List.drop_append, List.rtake, hn]
  rw [hcut]
  refine hasQualifier_append ?_ (hfront.drop n)
  simp only [n, List.length_drop, List.length_append, windowLength]
  omega

end ExplicitApi.Qualify
