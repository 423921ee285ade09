import ExplicitApi.Proofs.Qualify.WholeWord
import ExplicitApi.Qualify.Basic
import Mathlib.Data.List.Forall2

/-!
What qualifying does to a text, line by line and judged by the text as it was. Main statement: one
qualifying after another does what the rules of both do at once, since no qualifier put in front of
a declaration is seen from below, nor hides one that was.
-/
namespace ExplicitApi

namespace Rules

def only (kind : Declaration) : Rules := ⟨kind == .type, kind == .function⟩

theorem enabled_only (kind : Declaration) : (only kind).enabled = [kind] := by
  cases kind <;> rfl

def both (r s : Rules) : Rules := ⟨r.types || s.types, r.functions || s.functions⟩

theorem allows_both (r s : Rules) (kind : Declaration) :
    (r.both s).allows kind = (r.allows kind || s.allows kind) := by
  cases kind <;> rfl

theorem both_self (r : Rules) : r.both r = r := by
  cases r
  simp [both]

end Rules

namespace Qualify

/-- A keyword phrase of a kind, a gap inside the line and the first character of a name. -/
def OpensDeclaration (kind : Declaration) (s : List Char) : Prop :=
  ∃ keyword ∈ kind.keywords, ∃ gap c more, s = keyword.toList ++ (gap ++ c :: more) ∧ gap ≠ [] ∧
    (∀ b ∈ gap, Text.isInlineBlank b = true) ∧ Text.isWord c = true

def IsDeclarationLine (rules : Rules) (line : List Char) : Prop :=
  ∃ indentation s, line = indentation ++ s ∧ (∀ b ∈ indentation, Text.isBlank b = true) ∧
    ∃ kind, rules.allows kind = true ∧ OpensDeclaration kind s

def isBlankLine (line : List Char) : Bool := line.all Text.isBlank

def ended (lines : List (List Char)) : List Char := lines.flatMap (· ++ ['\n'])

/-- The text above a line without the blank lines that touch it. -/
def textAbove (above : List (List Char)) : List Char :=
  ended (above.rdropWhile isBlankLine)

/-- Whether a qualifier stands in the window in front of a line and the blank lines above it. -/
def SeesQualifier (above : List (List Char)) : Prop :=
  HasQualifier ((textAbove above).rtake windowLength)

instance (above : List (List Char)) : Decidable (SeesQualifier above) :=
  inferInstanceAs (Decidable (HasQualifier _))

theorem splitKeyword_eq_some_iff {kind : Declaration} {s phrase tail : List Char} :
    splitKeyword kind s = some (phrase, tail) ↔
      ∃ keyword ∈ kind.keywords, keyword.toList = phrase ∧ phrase ++ tail = s := by
  constructor
  · intro h
    obtain ⟨keyword, hk, hfound⟩ := List.exists_of_findSome?_eq_some h
    obtain ⟨rest, hrest, hpair⟩ := Option.map_eq_some_iff.1 hfound
    cases hpair
    exact ⟨keyword, hk, rfl, Text.afterPhrase?_eq_some_iff.1 hrest⟩
  · rintro ⟨keyword, hk, rfl, hs⟩
    have hafter := Text.afterPhrase?_eq_some_iff.2 hs
    cases hfound : splitKeyword kind s with
    | none => simpa [hafter] using List.findSome?_eq_none_iff.1 hfound keyword hk
    | some found =>
      obtain ⟨other, ho, hmap⟩ := List.exists_of_findSome?_eq_some hfound
      obtain ⟨rest, hrest, rfl⟩ := Option.map_eq_some_iff.1 hmap
      -- Both phrases open `s`, and no phrase opens with another.
      have hopen := Text.afterPhrase?_eq_some_iff.1 hrest
      have hfree : ∀ a ∈ kind.keywords, ∀ b ∈ kind.keywords, a.toList <+: b.toList → a = b := by
        cases kind <;> decide
      have hsame : other = keyword := by
        rcases Nat.le_total other.toList.length keyword.toList.length with hle | hle
        · exact hfree _ ho _ hk (List.prefix_of_prefix_length_le ⟨_, hopen⟩ ⟨_, hs⟩ hle)
        · exact (hfree _ hk _ ho (List.prefix_of_prefix_length_le ⟨_, hs⟩ ⟨_, hopen⟩ hle)).symm
      subst hsame
      simp_all

theorem opensWithName_iff {s : List Char} :
    opensWithName s = true ↔
      ∃ gap c more, s = gap ++ c :: more ∧ gap ≠ [] ∧
        (∀ b ∈ gap, Text.isInlineBlank b = true) ∧ Text.isWord c = true := by
  constructor
  · intro h
    cases s with
    | nil => simp [opensWithName] at h
    | cons b s =>
      simp only [opensWithName, Bool.and_eq_true] at h
      obtain ⟨hb, hname⟩ := h
      obtain ⟨c, hc, hword⟩ := (Option.any_eq_true _ _).1 hname
      obtain ⟨more, hmore⟩ := List.head?_eq_some_iff.1 hc
      refine ⟨b :: s.takeWhile Text.isInlineBlank, c, more, ?_, by simp, ?_, hword⟩
      · rw [List.cons_append, ← hmore, List.takeWhile_append_dropWhile]
      · rintro d hd
        rcases List.mem_cons.1 hd with rfl | hd
        · exact hb
        · exact List.mem_takeWhile_imp hd
  · rintro ⟨gap, c, more, rfl, hne, hgap, hc⟩
    obtain ⟨b, gap, rfl⟩ := List.exists_cons_of_ne_nil hne
    have hstop : Text.isInlineBlank c = false := by simp [Text.isInlineBlank, isBlank_of_isWord hc]
    have hdrop : (gap ++ c :: more).dropWhile Text.isInlineBlank = c :: more := by
      rw [List.dropWhile_append_of_pos fun d hd => hgap d (List.mem_cons_of_mem _ hd)]
      simp [hstop]
    simp [opensWithName, hdrop, hc, hgap b (List.mem_cons_self ..)]

/-- What the splitter of declarations asks of the text behind the indentation. -/
theorem opensDeclaration_iff {kind : Declaration} {s : List Char} :
    OpensDeclaration kind s ↔
      ∃ keyword tail, splitKeyword kind s = some (keyword, tail) ∧ opensWithName tail = true := by
  simp only [splitKeyword_eq_some_iff, opensWithName_iff]
  constructor
  · rintro ⟨keyword, hk, gap, c, more, rfl, hne, hgap, hc⟩
    exact ⟨_, _, ⟨keyword, hk, rfl, rfl⟩, gap, c, more, rfl, hne, hgap, hc⟩
  · rintro ⟨_, _, ⟨keyword, hk, rfl, rfl⟩, gap, c, more, rfl, hne, hgap, hc⟩
    exact ⟨keyword, hk, gap, c, more, rfl, hne, hgap, hc⟩

theorem splitDeclaration_eq_none_iff {kind : Declaration} {s : List Char} :
    splitDeclaration kind s = none ↔ ¬ OpensDeclaration kind (s.dropWhile Text.isBlank) := by
  rw [opensDeclaration_iff, splitDeclaration]
  cases hsplit : splitKeyword kind (s.dropWhile Text.isBlank) with
  | none => simp
  | some found =>
    obtain ⟨keyword, tail⟩ := found
    cases hname : opensWithName tail <;> simp [hname]

theorem eq_of_opensDeclaration {kind kind' : Declaration} {s : List Char}
    (h : OpensDeclaration kind s) (h' : OpensDeclaration kind' s) : kind = kind' := by
  obtain ⟨keyword, hk, gap, c, more, rfl, -⟩ := h
  obtain ⟨keyword', hk', gap', c', more', hs, -⟩ := h'
  -- the keywords of one kind begin with other letters than those of the other
  have hletters : ∀ keyword ∈ kind.keywords, ∀ keyword' ∈ kind'.keywords,
      keyword.toList ≠ [] ∧ keyword'.toList ≠ [] ∧
        (keyword.toList.head? = keyword'.toList.head? → kind = kind') := by
    cases kind <;> cases kind' <;> decide
  obtain ⟨hne, hne', hsame⟩ := hletters keyword hk keyword' hk'
  have hhead := congrArg List.head? hs
  rw [List.head?_append_of_ne_nil _ hne, List.head?_append_of_ne_nil _ hne'] at hhead
  exact hsame hhead

/-- A declaration opens with a letter, and with its line feed it fills at least six characters. -/
theorem OpensDeclaration.shape {kind : Declaration} {s : List Char} (h : OpensDeclaration kind s) :
    5 ≤ s.length ∧ ∃ c t, s = c :: t ∧ Text.isBlank c = false ∧ c ≠ 'p' := by
  obtain ⟨keyword, hk, gap, c, more, rfl, hne, -⟩ := h
  have hkeyword : ∀ keyword ∈ kind.keywords, 3 ≤ keyword.toList.length ∧
      (keyword.toList.head?.all fun c => !Text.isBlank c && c != 'p') = true := by
    cases kind <;> decide
  obtain ⟨hlen, hhead⟩ := hkeyword keyword hk
  have hgap := List.length_pos_iff.2 hne
  constructor
  · simp only [List.length_append, List.length_cons]
    omega
  · obtain ⟨d, t, hd⟩ := List.exists_cons_of_length_pos (by omega : 0 < keyword.toList.length)
    rw [hd] at hhead
    exact ⟨d, t ++ (gap ++ c :: more), by rw [hd]; rfl, by simpa using hhead⟩

/-- The indentation of a declaration line is all of the white space that opens it. -/
theorem isDeclarationLine_iff {rules : Rules} {line : List Char} :
    IsDeclarationLine rules line ↔
      ∃ kind, rules.allows kind = true ∧ OpensDeclaration kind (line.dropWhile Text.isBlank) := by
  constructor
  · rintro ⟨indentation, s, rfl, hblank, kind, hkind, hs⟩
    obtain ⟨-, c, t, rfl, hc, -⟩ := hs.shape
    refine ⟨kind, hkind, ?_⟩
    rw [List.dropWhile_append_of_pos hblank, List.dropWhile_cons_of_neg (by simp [hc])]
    exact hs
  · rintro ⟨kind, hkind, hs⟩
    exact ⟨_, _, List.takeWhile_append_dropWhile.symm, fun b hb => List.mem_takeWhile_imp hb, kind,
      hkind, hs⟩

theorem isDeclarationLine_only {kind : Declaration} {line : List Char} :
    IsDeclarationLine (Rules.only kind) line ↔
      OpensDeclaration kind (line.dropWhile Text.isBlank) := by
  have honly : ∀ k, (Rules.only kind).allows k = true ↔ k = kind := by
    intro k
    cases k <;> cases kind <;> decide
  simp [isDeclarationLine_iff, honly]

instance (kind : Declaration) (s : List Char) : Decidable (OpensDeclaration kind s) :=
  decidable_of_iff ((splitKeyword kind s).any fun split => opensWithName split.2) <| by
    simp [opensDeclaration_iff, Option.any_eq_true]

instance (rules : Rules) (line : List Char) : Decidable (IsDeclarationLine rules line) :=
  decidable_of_iff (∃ kind ∈ Declaration.all, rules.allows kind = true ∧
      OpensDeclaration kind (line.dropWhile Text.isBlank)) <| by
    have hall : ∀ kind, kind ∈ Declaration.all := by intro kind; cases kind <;> decide
    simp [isDeclarationLine_iff, hall]

def withQualifier (line : List Char) : List Char :=
  line.takeWhile Text.isBlank ++ inserted ++ line.dropWhile Text.isBlank

def lineAfter (rules : Rules) (above : List (List Char)) (line : List Char) : List Char :=
  if IsDeclarationLine rules line ∧ ¬ SeesQualifier above then withQualifier line else line

/-- What becomes of the lines below the lines `above`, each judged by those in front of it. -/
def linesAfter (rules : Rules) (above : List (List Char)) : List (List Char) → List (List Char)
  | [] => []
  | line :: rest => lineAfter rules above line :: linesAfter rules (above ++ [line]) rest

/-- The insertion that a pass makes in a line that stands below the lines `above`. -/
def lineInsertion? (kind : Declaration) (above : List (List Char)) (line : List Char) :
    Option Insertion :=
  if SeesQualifier above then none
  else (splitDeclaration kind line).map fun (d, _) =>
    ⟨kind, .ofNat (above.length + 1), String.ofList d.keyword, String.ofList d.name⟩

/-- The insertions in the lines below the lines `above`, each judged by those in front of it. -/
def lineInsertions (kind : Declaration) (above : List (List Char)) :
    List (List Char) → List Insertion
  | [] => []
  | line :: rest =>
    (lineInsertion? kind above line).toList ++ lineInsertions kind (above ++ [line]) rest

/-- A line that stayed as it was, or a declaration line that was given a qualifier. -/
def Grown (line after : List Char) : Prop :=
  after = line ∨ (after = withQualifier line ∧ ∃ rules, IsDeclarationLine rules line)

theorem grown_lineAfter (rules : Rules) (above : List (List Char)) (line : List Char) :
    Grown line (lineAfter rules above line) := by
  unfold lineAfter
  split_ifs with h
  · exact .inr ⟨rfl, rules, h.1⟩
  · exact .inl rfl

theorem takeWhile_withQualifier (line : List Char) :
    (withQualifier line).takeWhile Text.isBlank = line.takeWhile Text.isBlank ∧
      (withQualifier line).dropWhile Text.isBlank = inserted ++ line.dropWhile Text.isBlank := by
  have hblank : ∀ b ∈ line.takeWhile Text.isBlank, Text.isBlank b = true :=
    fun b hb => List.mem_takeWhile_imp hb
  have hp : Text.isBlank 'p' = false := by decide
  have hinserted : inserted = 'p' :: "ublic ".toList := by decide
  unfold withQualifier
  rw [List.append_assoc, List.takeWhile_append_of_pos hblank, List.dropWhile_append_of_pos hblank,
    hinserted]
  simp [hp]

/-- What was given a qualifier is no declaration line any more. -/
theorem not_isDeclarationLine_withQualifier (rules : Rules) (line : List Char) :
    ¬ IsDeclarationLine rules (withQualifier line) := by
  rw [isDeclarationLine_iff, (takeWhile_withQualifier line).2]
  rintro ⟨kind, -, hopen⟩
  obtain ⟨-, c, t, hs, -, hp⟩ := hopen.shape
  have hinserted : inserted = 'p' :: "ublic ".toList := by decide
  rw [hinserted, List.cons_append] at hs
  exact hp (List.cons.inj hs).1.symm

theorem OpensDeclaration.isBlankLine {kind : Declaration} {line : List Char}
    (h : OpensDeclaration kind (line.dropWhile Text.isBlank)) : isBlankLine line = false := by
  obtain ⟨-, c, t, hs, hc, -⟩ := h.shape
  have hmem : c ∈ line.dropWhile Text.isBlank := by rw [hs]; exact List.mem_cons_self
  rw [Qualify.isBlankLine, List.all_eq_false]
  exact ⟨c, (List.dropWhile_suffix _).subset hmem, by simp [hc]⟩

theorem isBlankLine_of_grown {line after : List Char} (h : Grown line after) :
    isBlankLine after = isBlankLine line := by
  rcases h with rfl | ⟨rfl, rules, hline⟩
  · rfl
  · obtain ⟨kind, -, hopen⟩ := isDeclarationLine_iff.1 hline
    obtain ⟨-, c, t, hs, hc, -⟩ := hopen.shape
    have hafter : isBlankLine (withQualifier line) = false := by
      rw [isBlankLine, List.all_eq_false]
      exact ⟨c, List.mem_append_right _ (by rw [hs]; exact List.mem_cons_self), by simp [hc]⟩
    rw [hafter, hopen.isBlankLine]

theorem EndsApart.append {s t : List Char} (hs : EndsApart s) (ht : EndsApart t) :
    EndsApart (s ++ t) := by
  intro c hc
  rw [List.getLast?_append] at hc
  cases hl : t.getLast? with
  | none => exact hs c (by simpa [hl] using hc)
  | some d => exact ht c (by simpa [hl] using hc)

theorem endsApart_of_blank {s : List Char} (hs : ∀ c ∈ s, Text.isBlank c = true) : EndsApart s :=
  fun c hc => isWord_of_isBlank (hs c (List.mem_of_getLast? hc))

theorem endsApart_inserted : EndsApart inserted := by
  have hlast : inserted.getLast? = some ' ' := by decide
  intro c hc
  rw [hlast] at hc
  cases hc
  decide

/--
Whether two texts differ only in front of their last five characters, if at all, and not by a word
that reaches into what they share.
-/
def SeenAlike (s t : List Char) : Prop :=
  ∃ front front' back, s = front ++ back ∧ t = front' ++ back ∧
    (front = front' ∨ 5 ≤ back.length ∧ EndsApart front ∧ EndsApart front')

theorem SeenAlike.hasQualifier_iff {s t : List Char} (h : SeenAlike s t) :
    HasQualifier (s.rtake windowLength) ↔ HasQualifier (t.rtake windowLength) := by
  obtain ⟨front, front', back, rfl, rfl, rfl | ⟨hback, hfront, hfront'⟩⟩ := h
  · rfl
  · rw [hasQualifier_rtake_append hback hfront, hasQualifier_rtake_append hback hfront']

theorem seenAlike_of_grown {above after : List (List Char)} (h : List.Forall₂ Grown above after) :
    SeenAlike (ended above) (ended after) := by
  induction h with
  | nil => exact ⟨[], [], [], rfl, rfl, .inl rfl⟩
  | @cons line line' above after hline _ ih =>
    obtain ⟨front, front', back, hs, ht, hback⟩ := ih
    have hend : ∀ l : List Char, EndsApart (l ++ ['\n']) := by
      intro l c hc
      rw [List.getLast?_concat] at hc
      cases hc
      decide
    rw [ended, List.flatMap_cons, ← ended, hs, ended, List.flatMap_cons, ← ended, ht]
    rcases hback with rfl | ⟨hlen, hfront, hfront'⟩
    · rcases hline with rfl | ⟨rfl, rules, hline⟩
      · exact ⟨[], [], _, rfl, rfl, .inl rfl⟩
      · -- The first difference is the qualifier itself, with a whole declaration behind it.
        obtain ⟨kind, -, hopen⟩ := isDeclarationLine_iff.1 hline
        have hblank : EndsApart (line.takeWhile Text.isBlank) :=
          endsApart_of_blank fun c hc => List.mem_takeWhile_imp hc
        refine ⟨line.takeWhile Text.isBlank, line.takeWhile Text.isBlank ++ inserted,
          line.dropWhile Text.isBlank ++ ['\n'] ++ (front ++ back), ?_, ?_, .inr ⟨?_, hblank, ?_⟩⟩
        · nth_rewrite 1 [← List.takeWhile_append_dropWhile (p := Text.isBlank) (l := line)]
          simp only [List.append_assoc]
        · simp [withQualifier]
        · have := hopen.shape.1
          simp only [List.length_append]
          omega
        · exact hblank.append endsApart_inserted
    · exact ⟨_, _, back, (List.append_assoc ..).symm, (List.append_assoc ..).symm,
        .inr ⟨hlen, (hend line).append hfront, (hend line').append hfront'⟩⟩

theorem forall₂_dropWhile {α : Type} {r : α → α → Prop} {p : α → Bool}
    (hp : ∀ a b, r a b → p b = p a) {l m : List α} (h : List.Forall₂ r l m) :
    List.Forall₂ r (l.dropWhile p) (m.dropWhile p) := by
  induction h with
  | nil => exact .nil
  | @cons a b l m hab hlm ih =>
    cases hpa : p a with
    | false =>
      rw [List.dropWhile_cons_of_neg (by simp [hpa]),
        List.dropWhile_cons_of_neg (by simp [hp a b hab, hpa])]
      exact .cons hab hlm
    | true =>
      rw [List.dropWhile_cons_of_pos hpa, List.dropWhile_cons_of_pos ((hp a b hab).trans hpa)]
      exact ih

theorem seesQualifier_iff_of_grown {above after : List (List Char)}
    (h : List.Forall₂ Grown above after) : SeesQualifier after ↔ SeesQualifier above := by
  have hkept := forall₂_dropWhile (fun _ _ hline => isBlankLine_of_grown hline) (List.rel_reverse h)
  exact (seenAlike_of_grown (List.rel_reverse hkept)).hasQualifier_iff.symm

theorem isDeclarationLine_both {r s : Rules} {line : List Char} :
    IsDeclarationLine (r.both s) line ↔ IsDeclarationLine r line ∨ IsDeclarationLine s line := by
  simp only [isDeclarationLine_iff, Rules.allows_both, Bool.or_eq_true, or_and_right, exists_or]

theorem lineAfter_lineAfter {r s : Rules} {above after : List (List Char)}
    (h : List.Forall₂ Grown above after) (line : List Char) :
    lineAfter s after (lineAfter r above line) = lineAfter (r.both s) above line := by
  have hsees := seesQualifier_iff_of_grown h
  unfold lineAfter
  by_cases hr : IsDeclarationLine r line ∧ ¬ SeesQualifier above
  · have hboth : IsDeclarationLine (r.both s) line := isDeclarationLine_both.2 (.inl hr.1)
    rw [if_pos hr, if_neg (fun hs => not_isDeclarationLine_withQualifier s line hs.1),
      if_pos ⟨hboth, hr.2⟩]
  · rw [if_neg hr]
    refine if_congr ?_ rfl rfl
    rw [hsees, isDeclarationLine_both]
    tauto

theorem linesAfter_linesAfter {r s : Rules} {above after : List (List Char)}
    (h : List.Forall₂ Grown above after) (lines : List (List Char)) :
    linesAfter s after (linesAfter r above lines) = linesAfter (r.both s) above lines := by
  induction lines generalizing above after with
  | nil => rfl
  | cons line lines ih =>
    have hline : List.Forall₂ Grown (above ++ [line]) (after ++ [lineAfter r above line]) :=
      List.rel_append h (.cons (grown_lineAfter r above line) .nil)
    rw [linesAfter, linesAfter, linesAfter, lineAfter_lineAfter h, ih hline]

theorem lineInsertion?_of_none {kind : Declaration} (above : List (List Char)) {line : List Char}
    (h : splitDeclaration kind line = none) : lineInsertion? kind above line = none := by
  unfold lineInsertion?
  split_ifs
  · rfl
  · rw [h, Option.map_none]

/-- What a pass inserts does not depend on another kind's qualifiers. -/
theorem lineInsertion?_lineAfter {r : Rules} {kind : Declaration} (hkind : r.allows kind = false)
    {above after : List (List Char)} (h : List.Forall₂ Grown above after) (line : List Char) :
    lineInsertion? kind after (lineAfter r above line) = lineInsertion? kind above line := by
  by_cases hr : IsDeclarationLine r line ∧ ¬ SeesQualifier above
  · obtain ⟨other, hother, hopen⟩ := isDeclarationLine_iff.1 hr.1
    have hline : splitDeclaration kind line = none := by
      refine splitDeclaration_eq_none_iff.2 fun hkopen => ?_
      rw [eq_of_opensDeclaration hkopen hopen, hother] at hkind
      cases hkind
    have hafter : splitDeclaration kind (withQualifier line) = none :=
      splitDeclaration_eq_none_iff.2 fun hkopen =>
        not_isDeclarationLine_withQualifier _ line (isDeclarationLine_only.2 hkopen)
    rw [lineAfter, if_pos hr, lineInsertion?_of_none _ hline, lineInsertion?_of_none _ hafter]
  · have hsees := seesQualifier_iff_of_grown h
    have hlength := h.length_eq
    simp only [lineAfter, if_neg hr, lineInsertion?, hsees, hlength]

theorem lineInsertions_linesAfter {r : Rules} {kind : Declaration} {above after : List (List Char)}
    (h : List.Forall₂ Grown above after) (hkind : r.allows kind = false)
    (lines : List (List Char)) :
    lineInsertions kind after (linesAfter r above lines) = lineInsertions kind above lines := by
  induction lines generalizing above after with
  | nil => rfl
  | cons line lines ih =>
    have hline : List.Forall₂ Grown (above ++ [line]) (after ++ [lineAfter r above line]) :=
      List.rel_append h (.cons (grown_lineAfter r above line) .nil)
    rw [linesAfter, lineInsertions, lineInsertions, lineInsertion?_lineAfter hkind h, ih hline]

end Qualify

end ExplicitApi
