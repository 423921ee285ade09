import ExplicitApi.Proofs.Selection.Locality
import ExplicitApi.Proofs.Text.Splitting

/-!
What a walk selects, said by the lines that stand in the ignore files. Main statement: exactly the
files under its root that name, includes and patterns admit and for which the last line that matches,
if there is one, is marked; it fails when an ignore file on the way to a file it admits is no text.
-/
namespace ExplicitApi

namespace Text

/-- Whether `t` is `s` without the characters of `p` at its ends. -/
structure Trims (p : Char → Bool) (s t : List Char) : Prop where
  between : ∃ front back, s = front ++ (t ++ back) ∧ (∀ c ∈ front, p c = true) ∧
    ∀ c ∈ back, p c = true
  head : ∀ c ∈ t.head?, p c = false
  last : ∀ c ∈ t.getLast?, p c = false

variable {p : Char → Bool} {s t : List Char}

theorem dropWhile_of_head? (h : ∀ c ∈ s.head?, p c = false) : s.dropWhile p = s := by
  cases s with
  | nil => rfl
  | cons c s => exact List.dropWhile_cons_of_neg (by simp [h c rfl])

theorem Trims.eq (h : Trims p s t) : ((s.dropWhile p).reverse.dropWhile p).reverse = t := by
  obtain ⟨⟨front, back, rfl, hfront, hback⟩, hhead, hlast⟩ := h
  rw [List.dropWhile_append_of_pos hfront]
  rcases eq_or_ne t [] with rfl | hne
  · rw [List.nil_append, List.dropWhile_eq_nil_iff.2 hback]
    rfl
  · have hfirst : ∀ c ∈ (t ++ back).head?, p c = false := by
      rwa [List.head?_append_of_ne_nil _ hne]
    have hback' : ∀ c ∈ back.reverse, p c = true := fun c hc => hback c (List.mem_reverse.1 hc)
    have hlast' : ∀ c ∈ t.reverse.head?, p c = false := by rwa [List.head?_reverse]
    rw [dropWhile_of_head? hfirst, List.reverse_append, List.dropWhile_append_of_pos hback',
      dropWhile_of_head? hlast', List.reverse_reverse]

theorem head?_dropWhile (p : Char → Bool) (s : List Char) :
    ∀ c ∈ (s.dropWhile p).head?, p c = false := by
  intro c hc
  have hfirst := List.head?_dropWhile_not p s
  rw [hc] at hfirst
  exact hfirst

theorem trims_trimmed (p : Char → Bool) (s : List Char) :
    Trims p s ((s.dropWhile p).reverse.dropWhile p).reverse := by
  let r := (s.dropWhile p).reverse
  have hkept : s.dropWhile p = (r.dropWhile p).reverse ++ (r.takeWhile p).reverse := by
    rw [← List.reverse_append, List.takeWhile_append_dropWhile, List.reverse_reverse]
  refine ⟨⟨s.takeWhile p, (r.takeWhile p).reverse, ?_, fun c hc => List.mem_takeWhile_imp hc,
    fun c hc => List.mem_takeWhile_imp (List.mem_reverse.1 hc)⟩, fun c hc => ?_, fun c hc => ?_⟩
  · rw [← hkept, List.takeWhile_append_dropWhile]
  · have hne : (r.dropWhile p).reverse ≠ [] := by
      intro hnil
      rw [hnil] at hc
      cases hc
    refine head?_dropWhile p s c ?_
    rwa [hkept, List.head?_append_of_ne_nil _ hne]
  · rw [List.getLast?_reverse] at hc
    exact head?_dropWhile p r c hc

theorem Trims.append_singleton (h : Trims p s t) {c : Char} (hc : p c = true) :
    Trims p (s ++ [c]) t := by
  obtain ⟨⟨front, back, rfl, hfront, hback⟩, hhead, hlast⟩ := h
  refine ⟨⟨front, back ++ [c], by simp, hfront, fun d hd => ?_⟩, hhead, hlast⟩
  rcases List.mem_append.1 hd with hd | hd
  · exact hback d hd
  · rwa [List.mem_singleton.1 hd]

theorem trim_append_singleton (s : List Char) {c : Char} (hc : isBlank c = true) :
    trim (s ++ [c]) = trim s :=
  ((trims_trimmed isBlank s).append_singleton hc).eq

end Text

namespace PathPattern

variable {p : PathPattern}

/-- The mark of a pattern that includes, its source, and the glob between slashes in it. -/
structure WrittenAs (p : PathPattern) (text : List Char) : Prop where
  marked : p.isInclude = true → text = '!' :: p.source.toList
  unmarked : p.isInclude = false → text = p.source.toList ∧ text.head? ≠ some '!'
  glob : ∃ inner, Text.Trims (· == '/') p.source.toList inner ∧ Glob.compile inner = .ok p.glob

/-- A pattern is what stands between white space on a line that is neither blank nor a comment. -/
def SaidBy (p : PathPattern) (line : List Char) : Prop :=
  ∃ text, Text.Trims Text.isBlank line text ∧ text ≠ [] ∧ text.head? ≠ some '#' ∧ p.WrittenAs text

theorem compileSource_eq_ok_iff {source : String} {glob : Glob} :
    compileSource source = .ok glob ↔
      ∃ inner, Text.Trims (· == '/') source.toList inner ∧ Glob.compile inner = .ok glob := by
  constructor
  · intro h
    exact ⟨_, Text.trims_trimmed _ _, h⟩
  · rintro ⟨inner, hinner, hglob⟩
    rw [compileSource, trimSlashes, hinner.eq, hglob]

theorem parse_eq_ok_iff_splitMark {raw : String} :
    parse raw = .ok p ↔ splitMark raw = (p.isInclude, p.source) ∧
      compileSource p.source = .ok p.glob := by
  obtain ⟨isInclude, source, glob⟩ := p
  unfold parse
  cases hmark : splitMark raw with
  | mk marked rest =>
    cases hglob : compileSource rest with
    | error cause =>
      simp only [hglob, reduceCtorEq, false_iff]
      rintro ⟨hsame, hok⟩
      cases hsame
      cases hglob.symm.trans hok
    | ok found =>
      simp only [hglob, Except.ok.injEq, PathPattern.mk.injEq, Prod.mk.injEq]
      constructor
      · rintro ⟨rfl, rfl, rfl⟩
        exact ⟨⟨rfl, rfl⟩, hglob⟩
      · rintro ⟨⟨rfl, rfl⟩, hok⟩
        exact ⟨rfl, rfl, Except.ok.inj (hglob.symm.trans hok)⟩

theorem splitMark_eq_iff {raw source : String} {isInclude : Bool} :
    splitMark raw = (isInclude, source) ↔
      (isInclude = true → raw.toList = '!' :: source.toList) ∧
        (isInclude = false → raw.toList = source.toList ∧ raw.toList.head? ≠ some '!') := by
  unfold splitMark
  split
  · next s hs =>
    cases isInclude with
    | true => simp [hs, String.ext_iff]
    | false => simp [hs]
  · next hnone =>
    have hhead : raw.toList.head? ≠ some '!' := by
      intro hhead
      obtain ⟨s, hs⟩ := List.head?_eq_some_iff.1 hhead
      exact hnone s hs
    cases isInclude with
    | true =>
      simp only [Prod.mk.injEq, Bool.false_eq_true, false_and, forall_const, reduceCtorEq,
        IsEmpty.forall_iff, and_true, false_iff]
      exact hnone _
    | false => simp [hhead, String.ext_iff]

theorem parse_eq_ok_iff {raw : String} : parse raw = .ok p ↔ p.WrittenAs raw.toList := by
  rw [parse_eq_ok_iff_splitMark, splitMark_eq_iff, compileSource_eq_ok_iff]
  constructor
  · rintro ⟨⟨hmarked, hunmarked⟩, hglob⟩
    exact ⟨hmarked, hunmarked, hglob⟩
  · rintro ⟨hmarked, hunmarked, hglob⟩
    exact ⟨⟨hmarked, hunmarked⟩, hglob⟩

theorem toOption_eq_some_iff {ε α : Type} {x : Except ε α} {a : α} :
    x.toOption = some a ↔ x = .ok a := by
  cases x <;> simp [Except.toOption]

theorem ofLine?_eq_some_iff {line : List Char} : ofLine? line = some p ↔ p.SaidBy line := by
  have htrims : ∀ text, Text.Trims Text.isBlank line text → Text.trim line = text :=
    fun text h => h.eq
  have hmine : Text.Trims Text.isBlank line (Text.trim line) := Text.trims_trimmed _ _
  constructor
  · intro h
    refine ⟨Text.trim line, hmine, ?_⟩
    unfold ofLine? at h
    split at h
    · cases h
    · cases h
    · next hne hcomment =>
      refine ⟨hne, fun hhead => ?_, ?_⟩
      · obtain ⟨s, hs⟩ := List.head?_eq_some_iff.1 hhead
        exact hcomment s hs
      · rw [toOption_eq_some_iff, parse_eq_ok_iff, String.toList_ofList] at h
        exact h
  · rintro ⟨text, htext, hne, hcomment, hwritten⟩
    unfold ofLine?
    rw [htrims text htext]
    split
    · exact absurd rfl hne
    · exact absurd rfl hcomment
    · rw [toOption_eq_some_iff, parse_eq_ok_iff, String.toList_ofList]
      exact hwritten

theorem ofLine?_dropLast_of_getLast? {line : List Char} (h : line.getLast? = some '\r') :
    ofLine? line.dropLast = ofLine? line := by
  obtain ⟨front, rfl⟩ := List.getLast?_eq_some_iff.1 h
  rw [List.dropLast_concat, ofLine?, ofLine?, Text.trim_append_singleton front (by decide)]

/-- Neither the carriage return of a line break nor an empty last line says anything. -/
theorem ofLines_eq (content : String) :
    ofLines content = (content.toList.splitOn '\n').filterMap ofLine? := by
  have hstrip : ∀ piece : List Char,
      ofLine? (if piece.getLast? = some '\r' then piece.dropLast else piece) = ofLine? piece := by
    intro piece
    split_ifs with hreturn
    · exact ofLine?_dropLast_of_getLast? hreturn
    · rfl
  obtain ⟨front, last, hpieces⟩ := List.eq_nil_or_concat' _ |>.resolve_left
    (List.splitOn_ne_nil '\n' content.toList)
  have hfront : (front.map fun piece : List Char =>
      if piece.getLast? = some '\r' then piece.dropLast else piece).filterMap ofLine? =
        front.filterMap ofLine? := by
    rw [List.filterMap_map]
    exact List.filterMap_congr fun piece _ => hstrip piece
  unfold ofLines Text.lines
  simp only [hpieces, List.dropLast_concat, List.getLast?_concat]
  cases last with
  | nil => simp [hfront, ofLine?, Text.trim, Text.trimStart, Text.trimEnd]
  | cons c s => simp [hfront]

end PathPattern

namespace FileTree

variable {t : FileTree} {p q : Path}

/-- The lines of the file that a path leads to; none if there is no file or it is no text. -/
def textLines (t : FileTree) (path : Path) : List (List Char) :=
  match t.readText path with
  | .ok content => content.toList.splitOn '\n'
  | .error _ => []

theorem patternsAt_eq (t : FileTree) (path : Path) :
    t.patternsAt path = (t.textLines path).filterMap PathPattern.ofLine? := by
  unfold patternsAt textLines
  cases t.readText path with
  | ok content => exact PathPattern.ofLines_eq content
  | error e => rfl

end FileTree

namespace Selection

variable {s : Selection} {t : FileTree} {top : Location} {root : Path} {names : List (List Char)}

def LineMatches (line : Path × List Char) : Prop :=
  ∃ p : PathPattern, p.SaidBy line.2 ∧ p.isMatch line.1 = true

def IsMarked (line : List Char) : Prop :=
  ∃ text, Text.Trims Text.isBlank line text ∧ text.head? = some '!'

/-- Whether the last of the lines that match, if there is one, is marked. -/
def LastMatchIsMarked (lines : List (Path × List Char)) : Prop :=
  ∀ front line back, lines = front ++ line :: back → LineMatches line →
    (∀ later ∈ back, ¬LineMatches later) → IsMarked line.2

/--
The lines of the ignore files in the directories from a root down, each with the path as its directory
sees it.
-/
def linesOnTheWay (t : FileTree) (name : String) (root : Path) (names : List (List Char)) :
    List (Path × List Char) :=
  (List.range names.length).flatMap fun depth =>
    (t.textLines ((root.descend (names.take depth)).join name)).map
      (Prod.mk (.ofNames (names.drop depth)))

/-- Whether the lines on the way, if ignore files count, leave in what names lead to. -/
def LeavesIn (s : Selection) (t : FileTree) (root : Path) (names : List (List Char)) : Prop :=
  ∀ name, s.ignoreFile = some name → LastMatchIsMarked (linesOnTheWay t name root names)

theorem lineMatches_iff {line : Path × List Char} :
    LineMatches line ↔ ∃ p, PathPattern.ofLine? line.2 = some p ∧ p.isMatch line.1 = true := by
  simp only [LineMatches, PathPattern.ofLine?_eq_some_iff]

theorem isMarked_iff {line : List Char} {p : PathPattern} (h : p.SaidBy line) :
    IsMarked line ↔ p.isInclude = true := by
  obtain ⟨text, htext, -, -, hwritten⟩ := h
  constructor
  · rintro ⟨text', htext', hmark⟩
    rw [← htext'.eq, htext.eq] at hmark
    by_contra hexcludes
    exact (hwritten.unmarked (by simpa using hexcludes)).2 hmark
  · intro hincludes
    exact ⟨text, htext, by rw [hwritten.marked hincludes]; rfl⟩

theorem lastMatchIsMarked_concat_of_lineMatches (lines : List (Path × List Char))
    {line : Path × List Char} (h : LineMatches line) :
    LastMatchIsMarked (lines ++ [line]) ↔ IsMarked line.2 := by
  constructor
  · intro hmarked
    exact hmarked lines line [] rfl h fun _ hmem => absurd hmem List.not_mem_nil
  · intro hmarked front line' back hlines _ hlater
    rcases List.eq_nil_or_concat' back with rfl | ⟨between, last, rfl⟩
    · obtain ⟨-, hlast⟩ := List.append_inj' hlines rfl
      rwa [← List.singleton_inj.1 hlast]
    · -- then the last line would be one of those behind the last match
      rw [← List.cons_append, ← List.append_assoc] at hlines
      obtain ⟨-, hlast⟩ := List.append_inj' hlines rfl
      obtain rfl := List.singleton_inj.1 hlast
      exact absurd h (hlater line (by simp))

theorem lastMatchIsMarked_concat_of_not_lineMatches (lines : List (Path × List Char))
    {line : Path × List Char} (h : ¬LineMatches line) :
    LastMatchIsMarked (lines ++ [line]) ↔ LastMatchIsMarked lines := by
  constructor
  · intro hmarked front line' back hlines hmatches hlater
    refine hmarked front line' (back ++ [line]) (by simp [hlines]) hmatches fun later hmem => ?_
    rcases List.mem_append.1 hmem with hmem | hmem
    · exact hlater later hmem
    · rwa [List.mem_singleton.1 hmem]
  · intro hmarked front line' back hlines hmatches hlater
    rcases List.eq_nil_or_concat' back with rfl | ⟨between, last, rfl⟩
    · obtain ⟨-, hlast⟩ := List.append_inj' hlines rfl
      rw [← List.singleton_inj.1 hlast] at hmatches
      exact absurd hmatches h
    · rw [← List.cons_append, ← List.append_assoc] at hlines
      obtain ⟨hfront, -⟩ := List.append_inj' hlines rfl
      exact hmarked front line' between hfront hmatches fun later hmem => hlater later (by simp [hmem])

def saidOf? (line : Path × List Char) : Option (Path × PathPattern) :=
  (PathPattern.ofLine? line.2).map (Prod.mk line.1)

theorem ignoreLines_eq (t : FileTree) (name : String) (root : Path) (names : List (List Char)) :
    ignoreLines t name root names = (linesOnTheWay t name root names).filterMap saidOf? := by
  rw [ignoreLines, linesOnTheWay, List.filterMap_flatMap]
  refine congrArg (List.flatMap · _) (funext fun depth => ?_)
  rw [linesAt, FileTree.patternsAt_eq, List.filterMap_map, List.map_filterMap]
  rfl

theorem lastIncludes_concat (lines : List (Path × PathPattern)) (line : Path × PathPattern) :
    LastIncludes (lines ++ [line]) ↔
      if line.2.isMatch line.1 = true then line.2.isInclude = true else LastIncludes lines := by
  rw [LastIncludes, List.filter_append]
  split_ifs with hmatch
  · simp [hmatch]
  · simp [hmatch, LastIncludes]

theorem lastIncludes_filterMap_iff (lines : List (Path × List Char)) :
    LastIncludes (lines.filterMap saidOf?) ↔ LastMatchIsMarked lines := by
  induction lines using List.reverseRecOn with
  | nil =>
    refine iff_of_true (fun line hline => by cases hline) fun front line back hlines => ?_
    cases front <;> cases hlines
  | append_singleton lines line ih =>
    have hsingle : [line].filterMap saidOf? = (saidOf? line).toList := by
      cases h : saidOf? line <;> simp [h]
    rw [List.filterMap_append, hsingle]
    cases hsaid : PathPattern.ofLine? line.2 with
    | none =>
      have hnot : ¬LineMatches line := by simp [lineMatches_iff, hsaid]
      rw [lastMatchIsMarked_concat_of_not_lineMatches _ hnot, ← ih, saidOf?, hsaid]
      simp
    | some p =>
      have hp := PathPattern.ofLine?_eq_some_iff.1 hsaid
      rw [saidOf?, hsaid, Option.map_some, Option.toList_some, lastIncludes_concat]
      split_ifs with hmatch
      · rw [lastMatchIsMarked_concat_of_lineMatches _ ⟨p, hp, hmatch⟩, isMarked_iff hp]
      · have hnot : ¬LineMatches line := by simp [lineMatches_iff, hsaid, hmatch]
        rw [lastMatchIsMarked_concat_of_not_lineMatches _ hnot, ← ih]

theorem spares_iff : s.Spares t root names ↔ s.LeavesIn t root names := by
  refine forall_congr' fun name => imp_congr_right fun _ => ?_
  rw [ignoreLines_eq, lastIncludes_filterMap_iff]

/--
A walk selects the files that are admitted and left in; it fails when an ignore file on the way to
one is no text.
-/
theorem filesUnder_correct (s : Selection) (htop : t.locate root = .ok top)
    (hdirectory : t.lookup top = some .directory) :
    (∀ raw p, PathPattern.parse raw = .ok p ↔ p.WrittenAs raw.toList) ∧
    (∀ files, s.filesUnder t root = .ok files →
      (files.Pairwise fun p q => compare p q = .lt) ∧
      ∀ path, path ∈ files ↔ ∃ names, t.Reaches top names ∧ path = root.descend names ∧
        t.isFile path = true ∧ s.Admits root names ∧ s.LeavesIn t root names) ∧
    ((∃ e, s.filesUnder t root = .error e) ↔
      ∃ names, t.Reaches top names ∧ t.isFile (root.descend names) = true ∧
        s.Admits root names ∧ s.MeetsIllegible t root names) := by
  refine ⟨fun raw p => PathPattern.parse_eq_ok_iff, fun files h => ?_,
    filesUnder_eq_error_iff htop hdirectory s⟩
  simp only [← spares_iff]
  exact ⟨pairwise_filesUnder h, fun path => mem_filesUnder_iff htop hdirectory h⟩

section RuledTree

/-- A comment, an invalid pattern, one that excludes, and two with the mark. -/
def rulesText : String := "# rules\n\n[\n  *.kt\n!B*.kt\r\n!C.kt"

def ruledTree : FileTree :=
  ((((FileTree.empty.put ["src".toList] .directory).put ["src".toList, ".visibilityignore".toList]
    (.file rulesText.toUTF8 ⟨1, 0⟩)).put ["src".toList, "A.kt".toList]
    (.file "class A".toUTF8 ⟨1, 0⟩)).put ["src".toList, "B.kt".toList]
    (.file "class B".toUTF8 ⟨1, 0⟩)).put ["src".toList, "BTest.kt".toList]
    (.file "class BTest".toUTF8 ⟨1, 0⟩) |>.put ["src".toList, "C.kt".toList]
    (.file "class C".toUTF8 ⟨1, 0⟩)

/-- What ends in `Test` is excluded, and what does not begin with `A` or `B`. -/
def ruled : Selection :=
  ⟨[".kt"],
    [⟨false, "*Test.kt", ⟨[.anySequence, .literal 'T', .literal 'e', .literal 's', .literal 't',
      .literal '.', .literal 'k', .literal 't']⟩⟩],
    [⟨false, "[AB]*.kt", ⟨[.within [.one 'A', .one 'B'], .anySequence, .literal '.', .literal 'k',
      .literal 't']⟩⟩],
    some ".visibilityignore"⟩

theorem holdsTexts_ruledTree : ruledTree.HoldsTexts :=
  (((((FileTree.holdsTexts_empty.put _ (.inl rfl)).put _ (.inr ⟨rulesText, _, rfl⟩)).put _
    (.inr ⟨"class A", _, rfl⟩)).put _ (.inr ⟨"class B", _, rfl⟩)).put _
    (.inr ⟨"class BTest", _, rfl⟩)).put _ (.inr ⟨"class C", _, rfl⟩)

theorem lookup_src_ruledTree : ruledTree.lookup ["src".toList] = some .directory := rfl

theorem locate_src_ruledTree : ruledTree.locate ⟨"src"⟩ = .ok ["src".toList] :=
  FileTree.locate_of_named (by decide) lookup_src_ruledTree FileTree.directory_ne_link (by decide)

theorem isFile_ruledTree {file : List Char} {content : ByteArray} {modified : Timestamp}
    (h : ruledTree.lookup (["src".toList] ++ [file]) = some (.file content modified)) :
    ruledTree.isFile (Path.descend ⟨"src"⟩ [file]) = true := by
  have hlocate := FileTree.locate_descend_of_lookup locate_src_ruledTree h FileTree.file_ne_link
    (List.cons_ne_nil _ _)
  rw [FileTree.isFile, FileTree.entry_eq_ok_iff.2 ⟨_, hlocate, h⟩]

theorem ofLines_rulesText :
    PathPattern.ofLines rulesText =
      [⟨false, "*.kt", ⟨[.anySequence, .literal '.', .literal 'k', .literal 't']⟩⟩,
        ⟨true, "B*.kt",
          ⟨[.literal 'B', .anySequence, .literal '.', .literal 'k', .literal 't']⟩⟩,
        ⟨true, "C.kt", ⟨[.literal 'C', .literal '.', .literal 'k', .literal 't']⟩⟩] := by
  cbv

theorem patternsAt_ruledTree :
    ruledTree.patternsAt ((⟨"src"⟩ : Path).join ".visibilityignore") =
      PathPattern.ofLines rulesText := by
  have hlookup : ruledTree.lookup (["src".toList] ++ [".visibilityignore".toList]) =
      some (.file rulesText.toUTF8 ⟨1, 0⟩) := rfl
  have hlocate : ruledTree.locate ((⟨"src"⟩ : Path).join ".visibilityignore") =
      .ok (["src".toList] ++ [".visibilityignore".toList]) :=
    FileTree.locate_descend_of_lookup locate_src_ruledTree hlookup FileTree.file_ne_link
      (List.cons_ne_nil _ _)
  have hread := FileTree.readText_eq_ok_iff_lookup.2 ⟨_, _, _, hlocate, hlookup,
    fromUTF8?_toUTF8 rulesText⟩
  rw [FileTree.patternsAt, hread]

theorem leavesIn_ruledTree_iff {file : List Char} :
    ruled.LeavesIn ruledTree ⟨"src"⟩ [file] ↔
      PathPattern.verdict (PathPattern.ofLines rulesText) (.ofNames [file]) true = true := by
  rw [← spares_iff, Spares, verdict_eq_lastSays, ← lastIncludes_iff, ← patternsAt_ruledTree]
  simp [ruled, ignoreLines_singleton, Path.descend]

theorem filesUnder_correct_ruledTree :
    (make [".kt"] ["*Test.kt"] (some ".visibilityignore") >>= fun s => s.withInclude "[AB]*.kt") =
        .ok ruled ∧
      ruledTree.locate ⟨"src"⟩ = .ok ["src".toList] ∧
      ruledTree.lookup ["src".toList] = some .directory ∧
      ∃ files, ruled.filesUnder ruledTree ⟨"src"⟩ = .ok files ∧ ⟨"src/B.kt"⟩ ∈ files ∧
        ⟨"src/A.kt"⟩ ∉ files ∧ ⟨"src/BTest.kt"⟩ ∉ files ∧ ⟨"src/C.kt"⟩ ∉ files := by
  obtain ⟨files, hfiles⟩ := exists_filesUnder (s := ruled) rfl
    (fun q => holdsTexts_ruledTree.not_isIllegible _) locate_src_ruledTree lookup_src_ruledTree
  obtain ⟨-, hok, -⟩ := filesUnder_correct ruled locate_src_ruledTree lookup_src_ruledTree
  obtain ⟨-, hmem⟩ := hok files hfiles
  have hin : ∀ file, Path.isName file = true → Path.descend ⟨"src"⟩ [file] ∈ files →
      ruled.Admits ⟨"src"⟩ [file] ∧ ruled.LeavesIn ruledTree ⟨"src"⟩ [file] := by
    intro file hname hfile
    obtain ⟨names, hnames, heq, -, hadmits, hleaves⟩ := (hmem _).1 hfile
    obtain rfl : [file] = names :=
      Path.descend_injective (by simpa using hname) hnames.all_isName (congrArg _ heq)
    exact ⟨hadmits, hleaves⟩
  have hlookup : ruledTree.lookup (["src".toList] ++ ["B.kt".toList]) =
      some (.file "class B".toUTF8 ⟨1, 0⟩) := rfl
  have hadmits : ruled.Admits ⟨"src"⟩ ["B.kt".toList] := selectsByName_iff.1 (by decide)
  have hleaves : ruled.LeavesIn ruledTree ⟨"src"⟩ ["B.kt".toList] := by
    rw [leavesIn_ruledTree_iff, ofLines_rulesText]
    decide
  refine ⟨by cbv, locate_src_ruledTree, lookup_src_ruledTree, files, hfiles, ?_, fun h => ?_,
    fun h => ?_, fun h => ?_⟩
  · have hpath : (⟨"src/B.kt"⟩ : Path) = Path.descend ⟨"src"⟩ ["B.kt".toList] := rfl
    rw [hpath, hmem]
    exact ⟨_, FileTree.reaches_of_lookup hlookup, rfl, isFile_ruledTree hlookup, hadmits, hleaves⟩
  · have hleaves := leavesIn_ruledTree_iff.1 (hin "A.kt".toList (by decide) h).2
    rw [ofLines_rulesText] at hleaves
    exact absurd hleaves (by decide)
  · exact absurd (selectsByName_iff.2 (hin "BTest.kt".toList (by decide) h).1) (by decide)
  · exact absurd (selectsByName_iff.2 (hin "C.kt".toList (by decide) h).1) (by decide)

end RuledTree

end Selection

end ExplicitApi
