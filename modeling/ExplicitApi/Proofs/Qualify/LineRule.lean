import ExplicitApi.Proofs.Qualify.Passes

/-!
The rule for a line in words of its own: which phrases declare, which words are looked for, how far
back, and what is put in. Main statement: qualifying a text does this to each line, judged by the
text as it was.
-/
namespace ExplicitApi.Qualify

/-- The phrases that declare something of an enabled kind. -/
def phrases (rules : Rules) : List String :=
  (if rules.types then
    ["data class", "enum class", "sealed class", "class", "interface", "object"]
  else []) ++
    if rules.functions then ["fun"] else []

/-- White space, a phrase, white space inside the line and the first character of a name. -/
def Declares (rules : Rules) (line : List Char) : Prop :=
  ∃ phrase ∈ phrases rules, ∃ indentation gap c more,
    line = indentation ++ (phrase.toList ++ (gap ++ c :: more)) ∧
      (∀ b ∈ indentation, Text.isBlank b = true) ∧ gap ≠ [] ∧
      (∀ b ∈ gap, Text.isBlank b = true ∧ b ≠ '\n') ∧ Text.isWord c = true

def ShowsVisibility (s : List Char) : Prop :=
  ∃ word ∈ ["public", "private", "protected", "internal"], HasWord word.toList s

/-- The ten characters in front of the blank lines that end `above`, or all if there are fewer. -/
def tenBefore (above : List (List Char)) : List Char := (textAbove above).rtake 10

theorem mem_phrases_iff {rules : Rules} {phrase : String} :
    phrase ∈ phrases rules ↔ ∃ kind, rules.allows kind = true ∧ phrase ∈ kind.keywords := by
  constructor
  · intro h
    rcases List.mem_append.1 h with h | h
    · split_ifs at h with htypes
      · exact ⟨.type, htypes, h⟩
      · exact absurd h List.not_mem_nil
    · split_ifs at h with hfunctions
      · exact ⟨.function, hfunctions, h⟩
      · exact absurd h List.not_mem_nil
  · rintro ⟨kind, hkind, h⟩
    cases kind with
    | type =>
      have htypes : rules.types = true := hkind
      exact List.mem_append_left _ (by rw [if_pos htypes]; exact h)
    | function =>
      have hfunctions : rules.functions = true := hkind
      exact List.mem_append_right _ (by rw [if_pos hfunctions]; exact h)

theorem isInlineBlank_iff {c : Char} :
    Text.isInlineBlank c = true ↔ Text.isBlank c = true ∧ c ≠ '\n' := by
  simp [Text.isInlineBlank]

theorem declares_iff {rules : Rules} {line : List Char} :
    Declares rules line ↔ IsDeclarationLine rules line := by
  constructor
  · rintro ⟨phrase, hphrase, indentation, gap, c, more, rfl, hblank, hne, hgap, hc⟩
    obtain ⟨kind, hkind, hk⟩ := mem_phrases_iff.1 hphrase
    exact ⟨indentation, _, rfl, hblank, kind, hkind, phrase, hk, gap, c, more, rfl, hne,
      fun b hb => isInlineBlank_iff.2 (hgap b hb), hc⟩
  · rintro ⟨indentation, s, rfl, hblank, kind, hkind, phrase, hk, gap, c, more, rfl, hne, hgap, hc⟩
    exact ⟨phrase, mem_phrases_iff.2 ⟨kind, hkind, hk⟩, indentation, gap, c, more, rfl, hblank, hne,
      fun b hb => isInlineBlank_iff.1 (hgap b hb), hc⟩

theorem showsVisibility_iff {s : List Char} : ShowsVisibility s ↔ HasQualifier s := by
  constructor
  · rintro ⟨word, hword, h⟩
    simp only [List.mem_cons, List.not_mem_nil, or_false] at hword
    rcases hword with rfl | rfl | rfl | rfl
    · exact ⟨.isPublic, h⟩
    · exact ⟨.isPrivate, h⟩
    · exact ⟨.isProtected, h⟩
    · exact ⟨.isInternal, h⟩
  · rintro ⟨q, h⟩
    exact ⟨q.text, by cases q <;> decide, h⟩

theorem showsVisibility_tenBefore_iff {above : List (List Char)} :
    ShowsVisibility (tenBefore above) ↔ SeesQualifier above :=
  showsVisibility_iff

instance (rules : Rules) (line : List Char) : Decidable (Declares rules line) :=
  decidable_of_iff _ declares_iff.symm

instance (s : List Char) : Decidable (ShowsVisibility s) :=
  decidable_of_iff _ showsVisibility_iff.symm

theorem inserted_eq : inserted = "public ".toList := by decide

/--
A declaration line with no visibility word in the ten characters before it gets one; every other
line stays as it was.
-/
theorem qualify_line_by_line (rules : Rules) (text : String) :
    (qualify rules text).text.toList.splitOn '\n' =
      (text.toList.splitOn '\n').mapIdx fun i line =>
        if Declares rules line ∧
            ¬ ShowsVisibility (tenBefore ((text.toList.splitOn '\n').take i)) then
          line.takeWhile Text.isBlank ++ "public ".toList ++ line.dropWhile Text.isBlank
        else line := by
  rw [lines_qualify, linesAfter_eq_mapIdx]
  simp only [declares_iff, showsVisibility_tenBefore_iff, ← inserted_eq, List.nil_append]
  rfl

/-- Blank lines do not keep the first class from seeing its qualifier. -/
theorem qualify_line_by_line_blankLines :
    (qualify ⟨true, true⟩ "private\n\n\n class A\n\tclass B\nfun c()\n").text.toList.splitOn '\n' =
      ["private".toList, [], [], " class A".toList, "\tpublic class B".toList,
        "public fun c()".toList, []] :=
  (qualify_line_by_line _ _).trans (by decide)

end ExplicitApi.Qualify
