import ExplicitApi.Qualify.Lookback
import ExplicitApi.Text.Line

/-! A text cut into declaration lines and the lines between them. -/
namespace ExplicitApi.Qualify

/-- A declaration line together with the blank lines directly above it. -/
structure DeclarationLine where
  /-- Every blank in front of the keyword, those of blank lines included. -/
  indentation : List Char
  keyword : List Char
  /-- The gap, the name and the remainder of the line with its line feed. -/
  rest : List Char
  deriving DecidableEq, Repr

namespace DeclarationLine

def text (d : DeclarationLine) : List Char := d.indentation ++ d.keyword ++ d.rest

/-- The longest run of letters, numbers and underscores behind the gap. -/
def name (d : DeclarationLine) : List Char :=
  (Text.trimStart d.rest).takeWhile fun c => Text.isAlphanumeric c || c == '_'

end DeclarationLine

/-- The keyword phrase of `kind` that opens `s`, and what follows it. -/
def splitKeyword (kind : Declaration) (s : List Char) : Option (List Char × List Char) :=
  kind.keywords.findSome? fun keyword =>
    (Text.afterPhrase? keyword.toList s).map fun rest => (keyword.toList, rest)

/-- Whether `s` begins with a gap inside its line and then a word character. -/
def opensWithName : List Char → Bool
  | [] => false
  | c :: s => Text.isInlineBlank c && (s.dropWhile Text.isInlineBlank).head?.any Text.isWord

/-- The declaration whose blank lines and indentation open `s`, and the text behind its line. -/
def splitDeclaration (kind : Declaration) (s : List Char) :
    Option (DeclarationLine × List Char) :=
  match splitKeyword kind (s.dropWhile Text.isBlank) with
  | some (keyword, tail) =>
    if opensWithName tail then
      let (rest, following) := Text.splitLine tail
      some (⟨s.takeWhile Text.isBlank, keyword, rest⟩, following)
    else none
  | none => none

/-- The blank lines that open `s` with the line behind them, and the text that follows. -/
def splitOther (s : List Char) : List Char × List Char :=
  let (line, following) := Text.splitLine (s.dropWhile Text.isBlank)
  (s.takeWhile Text.isBlank ++ line, following)

/--
A piece of a text, which is a line with the blank lines directly above it: a declaration with the text
before it, nearest character first, or any other.
-/
inductive Segment where
  | declaration (before : List Char) (line : Nat) (found : DeclarationLine)
  | other (text : List Char)
  deriving DecidableEq, Repr

theorem splitKeyword_append {kind : Declaration} {s keyword rest : List Char}
    (h : splitKeyword kind s = some (keyword, rest)) : keyword ++ rest = s := by
  obtain ⟨phrase, _, found⟩ := List.exists_of_findSome?_eq_some h
  obtain ⟨tail, eq, pair⟩ := Option.map_eq_some_iff.1 found
  cases pair
  exact Text.afterPhrase?_eq_some_iff.1 eq

theorem splitDeclaration_append {kind : Declaration} {s following : List Char}
    {d : DeclarationLine} (h : splitDeclaration kind s = some (d, following)) :
    d.text ++ following = s := by
  unfold splitDeclaration at h
  split at h
  · next keyword tail found =>
    split at h
    · cases h
      have whole := splitKeyword_append found
      have lines := Text.splitLine_append tail
      simp only [DeclarationLine.text, List.append_assoc]
      rw [lines, whole, List.takeWhile_append_dropWhile]
    · cases h
  · cases h

theorem splitDeclaration_length_lt {kind : Declaration} {s following : List Char}
    {d : DeclarationLine} (h : splitDeclaration kind s = some (d, following)) :
    following.length < s.length := by
  unfold splitDeclaration at h
  split at h
  · next keyword tail found =>
    split at h
    · next named =>
      cases h
      cases tail with
      | nil => simp [opensWithName] at named
      | cons c t =>
        have line := Text.splitLine_snd_length_lt c t
        have whole := congrArg List.length (splitKeyword_append found)
        have blanks := congrArg List.length (List.takeWhile_append_dropWhile (p := Text.isBlank) (l := s))
        simp only [List.length_append] at whole blanks
        omega
    · cases h
  · cases h

theorem splitOther_append (s : List Char) : (splitOther s).1 ++ (splitOther s).2 = s := by
  simp only [splitOther, List.append_assoc]
  rw [Text.splitLine_append, List.takeWhile_append_dropWhile]

theorem splitOther_snd_length_lt (c : Char) (s : List Char) :
    (splitOther (c :: s)).2.length < (c :: s).length := by
  have whole := congrArg List.length
    (List.takeWhile_append_dropWhile (p := Text.isBlank) (l := c :: s))
  simp only [List.length_append] at whole
  cases blank : (c :: s).dropWhile Text.isBlank with
  | nil => simp [splitOther, blank, Text.splitLine]
  | cons d t =>
    have line := Text.splitLine_snd_length_lt d t
    simp only [splitOther, blank]
    rw [blank] at whole
    omega

/-- Cuts `s`, which begins a line, the text before it being given nearest character first. -/
def segmentsFrom (kind : Declaration) (before : List Char) (line : Nat) :
    List Char → List Segment
  | [] => []
  | c :: s =>
    match _h : splitDeclaration kind (c :: s) with
    | some (d, following) =>
      .declaration before (line + Text.lineFeeds d.indentation) d ::
        segmentsFrom kind (d.text.reverse ++ before) (line + Text.lineFeeds d.text) following
    | none =>
      let split := splitOther (c :: s)
      .other split.1 ::
        segmentsFrom kind (split.1.reverse ++ before) (line + Text.lineFeeds split.1) split.2
  termination_by s => s.length
  decreasing_by
    · exact splitDeclaration_length_lt ‹_›
    · exact splitOther_snd_length_lt c s

/-- Cuts a whole text, whose lines are counted from one. -/
def segments (kind : Declaration) (text : List Char) : List Segment :=
  segmentsFrom kind [] 1 text

end ExplicitApi.Qualify
