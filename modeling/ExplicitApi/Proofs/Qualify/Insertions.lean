import ExplicitApi.Proofs.Qualify.FixedPoint
import Mathlib.Algebra.Ring.Nat

/-!
What the insertions of a qualified text tell. Main statements: they are those of the lines that
changed, in order and with what was put in front of what; and they are those of each kind by itself,
so that it does not matter which kind is qualified first.
-/
namespace ExplicitApi

/-- What is gathered over the enabled kinds comes from the types first. -/
theorem Rules.flatMap_enabled {α : Type} (rules : Rules) (f : Declaration → List α) :
    rules.enabled.flatMap f =
      (if rules.types then f .type else []) ++ (if rules.functions then f .function else []) := by
  obtain ⟨types, functions⟩ := rules
  cases types <;> cases functions
  · rfl
  · exact List.flatMap_singleton f _
  · exact (List.flatMap_singleton f _).trans (List.append_nil _).symm
  · exact congrArg (f .type ++ ·) (List.flatMap_singleton f _)

namespace Qualify

theorem lineInsertion?_eq_some_iff {kind : Declaration} {above : List (List Char)}
    {line : List Char} {i : Insertion} :
    lineInsertion? kind above line = some i ↔ ¬ SeesQualifier above ∧
      ∃ d following, splitDeclaration kind line = some (d, following) ∧
        i = ⟨kind, .ofNat (above.length + 1), String.ofList d.keyword, String.ofList d.name⟩ := by
  unfold lineInsertion?
  split_ifs with hsees
  · simp [hsees]
  · simp only [Option.map_eq_some_iff, Prod.exists, hsees, not_false_eq_true, true_and,
      eq_comm (b := i)]

theorem exists_lineInsertion?_iff {kind : Declaration} {above : List (List Char)}
    {line : List Char} :
    (∃ i, lineInsertion? kind above line = some i) ↔
      OpensDeclaration kind (line.dropWhile Text.isBlank) ∧ ¬ SeesQualifier above := by
  simp only [lineInsertion?_eq_some_iff]
  constructor
  · rintro ⟨i, hsees, d, following, hsplit, -⟩
    refine ⟨by_contra fun hopen => ?_, hsees⟩
    rw [splitDeclaration_eq_none_iff.2 hopen] at hsplit
    cases hsplit
  · rintro ⟨hopen, hsees⟩
    cases hsplit : splitDeclaration kind line with
    | none => exact absurd hopen (splitDeclaration_eq_none_iff.1 hsplit)
    | some found => exact ⟨_, hsees, found.1, found.2, rfl, rfl⟩

theorem mem_lineInsertions_iff {kind : Declaration} {above lines : List (List Char)}
    {i : Insertion} :
    i ∈ lineInsertions kind above lines ↔
      ∃ n line, lines[n]? = some line ∧
        lineInsertion? kind (above ++ lines.take n) line = some i := by
  induction lines generalizing above with
  | nil => simp [lineInsertions]
  | cons line lines ih =>
    rw [lineInsertions, List.mem_append, ih, Option.mem_toList]
    constructor
    · rintro (hhere | ⟨n, l, hl, hi⟩)
      · exact ⟨0, line, rfl, by simpa using hhere⟩
      · exact ⟨n + 1, l, by simpa using hl, by simpa using hi⟩
    · rintro ⟨n, l, hl, hi⟩
      cases n with
      | zero =>
        cases hl
        exact .inl (by simpa using hi)
      | succ n => exact .inr ⟨n, l, by simpa using hl, by simpa using hi⟩

theorem insertions_qualify (rules : Rules) (text : String) :
    (qualify rules text).insertions =
      rules.enabled.flatMap fun kind => lineInsertions kind [] (text.toList.splitOn '\n') := by
  have hpasses := passes_joinLines rules (Text.notMem_of_mem_splitOn '\n' text.toList)
  rw [joinLines, List.intercalate_splitOn] at hpasses
  exact congrArg Prod.snd hpasses

/-- What becomes of a line that stands below the lines in front of it. -/
theorem getElem?_lines_qualify (rules : Rules) (text : String) (n : Nat) :
    ((qualify rules text).text.toList.splitOn '\n')[n]? =
      (text.toList.splitOn '\n')[n]?.map
        (lineAfter rules ((text.toList.splitOn '\n').take n)) := by
  simp [lines_qualify, linesAfter_eq_mapIdx]

theorem withQualifier_ne (line : List Char) : withQualifier line ≠ line := by
  intro h
  have hsplit := congrArg List.length
    (List.takeWhile_append_dropWhile (p := Text.isBlank) (l := line))
  have hinserted : inserted.length = 7 := by decide
  have hlength := congrArg List.length h
  simp only [withQualifier, List.length_append] at hlength hsplit
  omega

theorem lineAfter_ne_iff {rules : Rules} {above : List (List Char)} {line : List Char} :
    lineAfter rules above line ≠ line ↔ IsDeclarationLine rules line ∧ ¬ SeesQualifier above := by
  unfold lineAfter
  split_ifs with h
  · exact iff_of_true (withQualifier_ne line) h
  · exact iff_of_false (fun hne => hne rfl) h

theorem exists_insertion_iff {rules : Rules} {above : List (List Char)} {line : List Char} :
    (∃ kind i, rules.allows kind = true ∧ lineInsertion? kind above line = some i) ↔
      lineAfter rules above line ≠ line := by
  rw [lineAfter_ne_iff, isDeclarationLine_iff]
  constructor
  · rintro ⟨kind, i, hkind, hi⟩
    obtain ⟨hopen, hsees⟩ := exists_lineInsertion?_iff.1 ⟨i, hi⟩
    exact ⟨⟨kind, hkind, hopen⟩, hsees⟩
  · rintro ⟨⟨kind, hkind, hopen⟩, hsees⟩
    obtain ⟨i, hi⟩ := exists_lineInsertion?_iff.2 ⟨hopen, hsees⟩
    exact ⟨kind, i, hkind, hi⟩

section Numbers

variable {kind : Declaration} {above lines : List (List Char)} {i : Insertion}

theorem kind_of_lineInsertion? {line : List Char} (h : lineInsertion? kind above line = some i) :
    i.kind = kind := by
  obtain ⟨-, d, following, -, rfl⟩ := lineInsertion?_eq_some_iff.1 h
  rfl

theorem line_of_lineInsertion? {line : List Char} (h : lineInsertion? kind above line = some i)
    (hsmall : above.length + 1 < 2 ^ 32) : i.line.toNat = above.length + 1 := by
  obtain ⟨-, d, following, -, rfl⟩ := lineInsertion?_eq_some_iff.1 h
  exact UInt32.toNat_ofNat_of_lt hsmall

/-- Lines are counted from one. -/
theorem line_of_mem_lines (hsmall : lines.length < 2 ^ 32) {n : Nat} {line : List Char}
    (hline : lines[n]? = some line) (h : lineInsertion? kind (lines.take n) line = some i) :
    i.line.toNat = n + 1 := by
  obtain ⟨hn, -⟩ := List.getElem?_eq_some_iff.1 hline
  have hlength : (lines.take n).length = n := List.length_take_of_le hn.le
  rw [line_of_lineInsertion? h (by omega), hlength]

theorem line_of_mem_lineInsertions (h : i ∈ lineInsertions kind above lines)
    (hsmall : above.length + lines.length < 2 ^ 32) : above.length < i.line.toNat := by
  obtain ⟨n, line, hline, hi⟩ := mem_lineInsertions_iff.1 h
  obtain ⟨hn, -⟩ := List.getElem?_eq_some_iff.1 hline
  have hlength : (above ++ lines.take n).length = above.length + n := by
    rw [List.length_append, List.length_take]
    omega
  rw [line_of_lineInsertion? hi (by omega), hlength]
  omega

/-- The line numbers of one kind increase. -/
theorem pairwise_lineInsertions (hsmall : above.length + lines.length < 2 ^ 32) :
    (lineInsertions kind above lines).Pairwise fun a b => a.line < b.line := by
  induction lines generalizing above with
  | nil => exact .nil
  | cons line lines ih =>
    have hrest : (above ++ [line]).length + lines.length < 2 ^ 32 := by
      simp only [List.length_append, List.length_cons, List.length_nil] at hsmall ⊢
      omega
    have hhead : above.length + 1 < 2 ^ 32 := by
      rw [List.length_cons] at hsmall
      omega
    have hbelow := ih hrest
    rw [lineInsertions]
    cases hhere : lineInsertion? kind above line with
    | none => exact hbelow
    | some i =>
      refine List.pairwise_cons.2 ⟨fun b hb => ?_, hbelow⟩
      have hb := line_of_mem_lineInsertions hb hrest
      rw [List.length_append, List.length_singleton] at hb
      rw [UInt32.lt_iff_toNat_lt, line_of_lineInsertion? hhere hhead]
      exact hb

end Numbers

/-- Whether an insertion tells a line's phrase and name, and `after` has the qualifier as well. -/
def Describes (i : Insertion) (line after : List Char) : Prop :=
  ∃ indentation gap rest, line = indentation ++ i.keyword.toList ++ gap ++ rest ∧
    after = indentation ++ inserted ++ i.keyword.toList ++ gap ++ rest ∧
    i.keyword ∈ i.kind.keywords ∧ (∀ b ∈ indentation, Text.isBlank b = true) ∧
    gap ≠ [] ∧ (∀ b ∈ gap, Text.isInlineBlank b = true) ∧
    (∀ c ∈ rest.head?, Text.isBlank c = false) ∧
    i.name.toList = rest.takeWhile fun c => Text.isAlphanumeric c || c == '_'

theorem describes_of_lineInsertion? {rules : Rules} {kind : Declaration}
    {above : List (List Char)} {line : List Char} {i : Insertion} (hfeed : '\n' ∉ line)
    (hkind : rules.allows kind = true) (h : lineInsertion? kind above line = some i) :
    Describes i line (lineAfter rules above line) := by
  have hopen := (exists_lineInsertion?_iff.1 ⟨i, h⟩).1
  have hchanged := lineAfter_ne_iff.1 (exists_insertion_iff.1 ⟨kind, i, hkind, h⟩)
  obtain ⟨keyword, hkeyword, tail, happend, hname, halone, -⟩ :=
    splitDeclaration_eq_some hfeed hopen
  obtain ⟨-, d, following, hsplit, rfl⟩ := lineInsertion?_eq_some_iff.1 h
  cases halone.symm.trans hsplit
  obtain ⟨gap, c, more, rfl, hne, hgap, hc⟩ := opensWithName_iff.1 hname
  refine ⟨line.takeWhile Text.isBlank, gap, c :: more, ?_, ?_, ?_,
    fun b hb => List.mem_takeWhile_imp hb, hne, hgap, ?_, ?_⟩
  · dsimp only
    rw [String.toList_ofList, List.append_assoc, List.append_assoc, happend,
      List.takeWhile_append_dropWhile]
  · dsimp only
    rw [lineAfter, if_pos hchanged, withQualifier, ← happend, String.toList_ofList]
    simp only [List.append_assoc]
  · dsimp only
    rw [String.ofList_toList]
    exact hkeyword
  · intro b hb
    cases hb
    exact isBlank_of_isWord hc
  · dsimp only
    rw [String.toList_ofList, DeclarationLine.name, trimStart_gap hgap hc]

end Qualify

theorem utf8ByteSize_eq_sum (s : String) : s.utf8ByteSize = (s.toList.map Char.utf8Size).sum := by
  rw [← String.ofList_toList (s := s), String.toList_ofList]
  induction s.toList with
  | nil => simp
  | cons c l ih =>
    rw [← List.singleton_append, String.ofList_append, String.utf8ByteSize_append, ih]
    simp

/-- Each insertion makes a text longer by the seven bytes of a qualifier and a blank. -/
theorem utf8ByteSize_qualify (rules : Rules) (text : String) :
    (qualify rules text).text.utf8ByteSize =
      text.utf8ByteSize + 7 * (qualify rules text).insertions.length := by
  have hperm := Qualify.perm_passes rules.enabled text.toList
  have hinserted : (Qualify.inserted.map Char.utf8Size).sum = 7 := by decide
  have hgain : ∀ found : List Insertion,
      ((found.flatMap fun _ => Qualify.inserted).map Char.utf8Size).sum = 7 * found.length := by
    intro found
    induction found with
    | nil => rfl
    | cons i found ih =>
      rw [List.flatMap_cons, List.map_append, List.sum_append, hinserted, ih, List.length_cons]
      omega
  rw [utf8ByteSize_eq_sum, utf8ByteSize_eq_sum, Qualify.toList_qualify,
    (hperm.map Char.utf8Size).sum_nat, List.map_append, List.sum_append, hgain, Nat.add_comm]
  rfl

theorem isChanged_iff {rules : Rules} {text : String} :
    (qualify rules text).isChanged = true ↔ (qualify rules text).text ≠ text := by
  rw [Ne, ← insertions_eq_nil_iff]
  simp [Qualified.isChanged]

namespace Qualify

section Account

variable {rules : Rules} {text : String}

def insertionsOf (rules : Rules) (text : String) (kind : Declaration) : List Insertion :=
  if rules.allows kind then lineInsertions kind [] (text.toList.splitOn '\n') else []

theorem mem_insertionsOf_iff {kind : Declaration} {i : Insertion} :
    i ∈ insertionsOf rules text kind ↔ rules.allows kind = true ∧
      ∃ n line, (text.toList.splitOn '\n')[n]? = some line ∧
        lineInsertion? kind ((text.toList.splitOn '\n').take n) line = some i := by
  unfold insertionsOf
  split_ifs with hkind
  · simp [hkind, mem_lineInsertions_iff]
  · simp [hkind]

theorem insertions_eq_append (rules : Rules) (text : String) :
    (qualify rules text).insertions =
      insertionsOf rules text .type ++ insertionsOf rules text .function :=
  (insertions_qualify rules text).trans (rules.flatMap_enabled _)

theorem mem_insertions_iff {i : Insertion} :
    i ∈ (qualify rules text).insertions ↔ ∃ kind, i ∈ insertionsOf rules text kind := by
  rw [insertions_eq_append, List.mem_append]
  constructor
  · rintro (hi | hi)
    · exact ⟨.type, hi⟩
    · exact ⟨.function, hi⟩
  · rintro ⟨kind, hi⟩
    cases kind
    · exact .inl hi
    · exact .inr hi

variable (hsmall : (text.toList.splitOn '\n').length < 2 ^ 32)
include hsmall

theorem pairwise_insertionsOf (kind : Declaration) :
    (insertionsOf rules text kind).Pairwise fun a b => a.line < b.line := by
  unfold insertionsOf
  split_ifs
  · refine pairwise_lineInsertions ?_
    rwa [List.length_nil, Nat.zero_add]
  · exact .nil

/-- Two kinds of declaration never have an insertion in the same line. -/
theorem eq_of_line_eq {kind kind' : Declaration} {i i' : Insertion}
    (hi : i ∈ insertionsOf rules text kind) (hi' : i' ∈ insertionsOf rules text kind')
    (hline : i.line = i'.line) : kind = kind' := by
  obtain ⟨-, n, line, hn, hfound⟩ := mem_insertionsOf_iff.1 hi
  obtain ⟨-, n', line', hn', hfound'⟩ := mem_insertionsOf_iff.1 hi'
  have hnumber := line_of_mem_lines hsmall hn hfound
  have hnumber' := line_of_mem_lines hsmall hn' hfound'
  have hsame : n = n' := by
    rw [hline] at hnumber
    omega
  subst hsame
  cases hn.symm.trans hn'
  exact eq_of_opensDeclaration (exists_lineInsertion?_iff.1 ⟨i, hfound⟩).1
    (exists_lineInsertion?_iff.1 ⟨i', hfound'⟩).1

theorem nodup_lines : ((qualify rules text).insertions.map Insertion.line).Nodup := by
  have hkind : ∀ kind, ((insertionsOf rules text kind).map Insertion.line).Nodup := by
    intro kind
    refine List.pairwise_map.2 ((pairwise_insertionsOf hsmall kind).imp fun hlt heq => ?_)
    rw [heq] at hlt
    exact UInt32.lt_irrefl _ hlt
  rw [insertions_eq_append, List.map_append]
  refine List.nodup_append.2 ⟨hkind .type, hkind .function, fun a ha b hb heq => ?_⟩
  obtain ⟨i, hi, rfl⟩ := List.mem_map.1 ha
  obtain ⟨i', hi', rfl⟩ := List.mem_map.1 hb
  cases eq_of_line_eq hsmall hi hi' heq

theorem exists_insertion_at_iff (n : Nat) :
    (∃ i ∈ (qualify rules text).insertions, i.line.toNat = n + 1) ↔
      (text.toList.splitOn '\n')[n]? ≠ ((qualify rules text).text.toList.splitOn '\n')[n]? := by
  rw [getElem?_lines_qualify]
  constructor
  · rintro ⟨i, hi, hnumber⟩
    obtain ⟨kind, hi⟩ := mem_insertions_iff.1 hi
    obtain ⟨hkind, m, line, hline, hfound⟩ := mem_insertionsOf_iff.1 hi
    have hm := line_of_mem_lines hsmall hline hfound
    have hsame : m = n := by omega
    subst hsame
    rw [hline, Option.map_some, Ne, Option.some_inj, eq_comm]
    exact exists_insertion_iff.1 ⟨kind, i, hkind, hfound⟩
  · intro hne
    cases hline : (text.toList.splitOn '\n')[n]? with
    | none => simp [hline] at hne
    | some line =>
      rw [hline, Option.map_some, Ne, Option.some_inj, eq_comm] at hne
      obtain ⟨kind, i, hkind, hfound⟩ := exists_insertion_iff.2 hne
      have hi := mem_insertionsOf_iff.2 ⟨hkind, n, line, hline, hfound⟩
      exact ⟨i, mem_insertions_iff.2 ⟨kind, hi⟩, line_of_mem_lines hsmall hline hfound⟩

theorem exists_describes {i : Insertion} (hi : i ∈ (qualify rules text).insertions) :
    ∃ n line after, i.line.toNat = n + 1 ∧ (text.toList.splitOn '\n')[n]? = some line ∧
      ((qualify rules text).text.toList.splitOn '\n')[n]? = some after ∧
      Describes i line after := by
  obtain ⟨kind, hi⟩ := mem_insertions_iff.1 hi
  obtain ⟨hkind, n, line, hline, hfound⟩ := mem_insertionsOf_iff.1 hi
  have hfeed := Text.notMem_of_mem_splitOn '\n' _ line (List.mem_of_getElem? hline)
  exact ⟨n, line, _, line_of_mem_lines hsmall hline hfound, hline,
    by rw [getElem?_lines_qualify, hline]; rfl, describes_of_lineInsertion? hfeed hkind hfound⟩

end Account

end Qualify

/-- Whether insertions account for what became of a text. -/
structure Accounts (text : String) (done : Qualified) : Prop where
  inOrder : ∃ types functions, done.insertions = types ++ functions ∧
    (∀ i ∈ types, i.kind = .type) ∧ (∀ i ∈ functions, i.kind = .function) ∧
    (types.Pairwise fun a b => a.line < b.line) ∧
    functions.Pairwise fun a b => a.line < b.line
  once : (done.insertions.map Insertion.line).Nodup
  changed : ∀ n, (∃ i ∈ done.insertions, i.line.toNat = n + 1) ↔
    (text.toList.splitOn '\n')[n]? ≠ (done.text.toList.splitOn '\n')[n]?
  described : ∀ i ∈ done.insertions, ∃ n line after, i.line.toNat = n + 1 ∧
    (text.toList.splitOn '\n')[n]? = some line ∧
    (done.text.toList.splitOn '\n')[n]? = some after ∧ Qualify.Describes i line after
  isChanged_iff : done.isChanged = true ↔ done.text ≠ text
  size : done.text.utf8ByteSize = text.utf8ByteSize + 7 * done.insertions.length

/--
The insertions account for the text: types first, each kind down the text, and the lines that have
one are those changed.
-/
theorem insertions_account (rules : Rules) (text : String)
    (hsmall : (text.toList.splitOn '\n').length < 2 ^ 32) :
    Accounts text (qualify rules text) where
  inOrder := by
    have hkind : ∀ kind, ∀ i ∈ Qualify.insertionsOf rules text kind, i.kind = kind := by
      intro kind i hi
      obtain ⟨-, n, line, -, hfound⟩ := Qualify.mem_insertionsOf_iff.1 hi
      exact Qualify.kind_of_lineInsertion? hfound
    exact ⟨_, _, Qualify.insertions_eq_append rules text, hkind .type, hkind .function,
      Qualify.pairwise_insertionsOf hsmall .type, Qualify.pairwise_insertionsOf hsmall .function⟩
  once := Qualify.nodup_lines hsmall
  changed := Qualify.exists_insertion_at_iff hsmall
  described := fun _ => Qualify.exists_describes hsmall
  isChanged_iff := isChanged_iff
  size := utf8ByteSize_qualify rules text

/-- A declaration of each kind, one of them behind a blank line and one that is qualified. -/
theorem insertions_account_fourLines :
    ("class A\n\n  fun b()\nprivate class C".toList.splitOn '\n').length < 2 ^ 32 ∧
      Accounts "class A\n\n  fun b()\nprivate class C"
        (qualify {} "class A\n\n  fun b()\nprivate class C") := by
  have hsmall : ("class A\n\n  fun b()\nprivate class C".toList.splitOn '\n').length < 2 ^ 32 := by
    decide +kernel
  exact ⟨hsmall, insertions_account {} _ hsmall⟩

/--
The text is the same whichever kind comes first, and each has its insertions in the text as it was.
-/
theorem kinds_independent (text : String) :
    (qualify (.only .function) (qualify (.only .type) text).text).text = (qualify {} text).text ∧
      (qualify (.only .type) (qualify (.only .function) text).text).text =
        (qualify {} text).text ∧
      (qualify {} text).insertions =
        (qualify (.only .type) text).insertions ++ (qualify (.only .function) text).insertions := by
  refine ⟨text_qualify_both _ _ text, text_qualify_both _ _ text, ?_⟩
  simp only [Qualify.insertions_eq_append]
  simp [Qualify.insertionsOf, Rules.only, Rules.allows]

end ExplicitApi
