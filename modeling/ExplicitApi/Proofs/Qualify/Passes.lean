import ExplicitApi.Proofs.Qualify.ByLine
import ExplicitApi.Proofs.Text.Splitting

/-!
The passes over a text against the same on its lines. Main statement: a qualified text has the lines
of the text, each as it is judged by the lines above it.
-/
namespace ExplicitApi.Qualify

def joinLines (lines : List (List Char)) : List Char := ['\n'].intercalate lines

def lineEnd (rest : List (List Char)) : List Char := if rest = [] then [] else ['\n']

theorem joinLines_cons (line : List Char) (rest : List (List Char)) :
    joinLines (line :: rest) = line ++ lineEnd rest ++ joinLines rest := by
  cases rest with
  | nil => simp [joinLines, lineEnd]
  | cons next rest => simp [joinLines, lineEnd]

theorem joinLines_append (lines : List (List Char)) {rest : List (List Char)} (hrest : rest ≠ []) :
    joinLines (lines ++ rest) = ended lines ++ joinLines rest := by
  induction lines with
  | nil => rfl
  | cons line lines ih =>
    have hne : lines ++ rest ≠ [] := by simp [hrest]
    rw [List.cons_append, joinLines_cons, ih, lineEnd, if_neg hne]
    simp [ended]

theorem splitLine_line {line : List Char} (hline : '\n' ∉ line) (rest : List (List Char)) :
    Text.splitLine (line ++ lineEnd rest ++ joinLines rest) =
      (line ++ lineEnd rest, joinLines rest) := by
  induction line with
  | nil => cases rest <;> simp [lineEnd, joinLines, Text.splitLine]
  | cons c line ih =>
    have hc : c ≠ '\n' := fun h => hline (h ▸ List.mem_cons_self)
    have htail : '\n' ∉ line := fun h => hline (List.mem_cons_of_mem _ h)
    rw [List.cons_append, List.cons_append, Text.splitLine, if_neg hc, ih htail]

theorem lineEnd_blank (rest : List (List Char)) : ∀ c ∈ lineEnd rest, Text.isBlank c = true := by
  unfold lineEnd
  split_ifs <;> simp [Text.isBlank_newline]

theorem ended_blank {lines : List (List Char)} (h : ∀ line ∈ lines, isBlankLine line = true) :
    ∀ c ∈ ended lines, Text.isBlank c = true := by
  intro c hc
  obtain ⟨line, hline, hc⟩ := List.mem_flatMap.1 hc
  rcases List.mem_append.1 hc with hc | hc
  · exact List.all_eq_true.1 (h line hline) c hc
  · rw [List.mem_singleton.1 hc, Text.isBlank_newline]

/-- The blanks that open blank lines and a line behind them are those lines and its indentation. -/
theorem span_isBlank {blank : List (List Char)} (hblank : ∀ line ∈ blank, isBlankLine line = true)
    {line : List Char} (hline : isBlankLine line = false) (s : List Char) :
    (ended blank ++ (line ++ s)).takeWhile Text.isBlank =
        ended blank ++ line.takeWhile Text.isBlank ∧
      (ended blank ++ (line ++ s)).dropWhile Text.isBlank = line.dropWhile Text.isBlank ++ s := by
  have hne : line.dropWhile Text.isBlank ≠ [] := by
    rw [Ne, List.dropWhile_eq_nil_iff]
    intro h
    rw [isBlankLine, List.all_eq_true.2 h] at hline
    exact absurd hline (by decide)
  have hlen : (line.takeWhile Text.isBlank).length ≠ line.length := by
    intro h
    have := congrArg List.length (List.takeWhile_append_dropWhile (p := Text.isBlank) (l := line))
    rw [List.length_append, h] at this
    exact hne (List.length_eq_zero_iff.1 (by omega))
  have hended := ended_blank hblank
  constructor
  · rw [List.takeWhile_append_of_pos hended, List.takeWhile_append, if_neg hlen]
  · rw [List.dropWhile_append_of_pos hended, List.dropWhile_append, if_neg (by simpa using hne)]

theorem newline_notMem_opening {kind : Declaration} {keyword : String}
    (hk : keyword ∈ kind.keywords) {gap : List Char}
    (hgap : ∀ b ∈ gap, Text.isInlineBlank b = true) {c : Char} (hc : Text.isWord c = true) :
    '\n' ∉ keyword.toList ++ gap ++ [c] := by
  have hkeyword : ∀ keyword ∈ kind.keywords, '\n' ∉ keyword.toList := by cases kind <;> decide
  have hname : c ≠ '\n' := by
    rintro rfl
    exact absurd (isBlank_of_isWord hc) (by decide)
  simp only [List.mem_append, List.mem_singleton, not_or]
  refine ⟨⟨hkeyword keyword hk, fun h => ?_⟩, hname.symm⟩
  simpa [Text.isInlineBlank] using hgap _ h

/-- A declaration ends inside its line, so that the lines below do not matter. -/
theorem opensDeclaration_append {kind : Declaration} {s : List Char} (hs : '\n' ∉ s)
    (rest : List (List Char)) :
    OpensDeclaration kind (s ++ lineEnd rest ++ joinLines rest) ↔ OpensDeclaration kind s := by
  constructor
  · rintro ⟨keyword, hk, gap, c, more, hsplit, hne, hgap, hc⟩
    have hopening := newline_notMem_opening hk hgap hc
    have hshape : s ++ (lineEnd rest ++ joinLines rest) = keyword.toList ++ gap ++ [c] ++ more := by
      simpa using hsplit
    refine ⟨keyword, hk, gap, c, ?_⟩
    rcases List.append_eq_append_iff.1 hshape with ⟨beyond, hopen, hbeyond⟩ | ⟨beyond, rfl, -⟩
    · -- The opening would reach into the line end, which it has no character of.
      cases rest with
      | nil =>
        have hnil : beyond = [] := by
          have hall : [] = beyond ++ more := by simpa [lineEnd, joinLines] using hbeyond
          exact (List.append_eq_nil_iff.1 hall.symm).1
        subst hnil
        exact ⟨[], by simpa using hopen.symm, hne, hgap, hc⟩
      | cons next rest =>
        cases beyond with
        | nil => exact ⟨[], by simpa using hopen.symm, hne, hgap, hc⟩
        | cons d beyond =>
          have hd : d = '\n' := by
            simp only [lineEnd, List.cons_append] at hbeyond
            exact (List.cons.inj hbeyond).1.symm
          subst hd
          exact absurd (hopen ▸ by simp) hopening
    · exact ⟨beyond, by simp, hne, hgap, hc⟩
  · rintro ⟨keyword, hk, gap, c, more, rfl, hne, hgap, hc⟩
    exact ⟨keyword, hk, gap, c, more ++ lineEnd rest ++ joinLines rest, by simp, hne, hgap, hc⟩

section Cut

variable {kind : Declaration} {blank : List (List Char)} {line : List Char}

/-- A declaration line is cut off together with the blank lines above it, if there are any. -/
theorem splitDeclaration_eq_some (hfeed : '\n' ∉ line)
    (hopen : OpensDeclaration kind (line.dropWhile Text.isBlank)) :
    ∃ keyword ∈ kind.keywords, ∃ tail, keyword.toList ++ tail = line.dropWhile Text.isBlank ∧
      opensWithName tail = true ∧
      splitDeclaration kind line =
        some (⟨line.takeWhile Text.isBlank, keyword.toList, tail⟩, []) ∧
      ∀ (blank rest : List (List Char)), (∀ l ∈ blank, isBlankLine l = true) →
        splitDeclaration kind (joinLines (blank ++ line :: rest)) =
          some (⟨ended blank ++ line.takeWhile Text.isBlank, keyword.toList,
            tail ++ lineEnd rest⟩, joinLines rest) := by
  obtain ⟨phrase, tail, hsplit, hname⟩ := opensDeclaration_iff.1 hopen
  obtain ⟨keyword, hphrase, rfl, happend⟩ := splitKeyword_eq_some_iff.1 hsplit
  have hfeed' : '\n' ∉ tail := fun h =>
    hfeed ((List.dropWhile_suffix _).subset (happend ▸ List.mem_append_right _ h))
  have hcut : ∀ (blank rest : List (List Char)), (∀ l ∈ blank, isBlankLine l = true) →
      splitDeclaration kind (joinLines (blank ++ line :: rest)) =
        some (⟨ended blank ++ line.takeWhile Text.isBlank, keyword.toList,
          tail ++ lineEnd rest⟩, joinLines rest) := by
    intro blank rest hblank
    let more := lineEnd rest ++ joinLines rest
    have hkeyword : splitKeyword kind (line.dropWhile Text.isBlank ++ more) =
        some (keyword.toList, tail ++ more) :=
      splitKeyword_eq_some_iff.2 ⟨keyword, hphrase, rfl, by rw [← happend, List.append_assoc]⟩
    have hname' : opensWithName (tail ++ more) = true := by
      obtain ⟨gap, c, t, rfl, h⟩ := opensWithName_iff.1 hname
      exact opensWithName_iff.2 ⟨gap, c, t ++ more, by simp, h⟩
    have htail : Text.splitLine (tail ++ more) = (tail ++ lineEnd rest, joinLines rest) := by
      rw [← List.append_assoc, splitLine_line hfeed']
    have hspan := span_isBlank hblank hopen.isBlankLine more
    rw [joinLines_append _ (by simp), joinLines_cons, List.append_assoc line, splitDeclaration,
      hspan.1, hspan.2, hkeyword]
    simp only [hname', if_true, htail]
  refine ⟨keyword, hphrase, tail, happend, hname, ?_, hcut⟩
  simpa [joinLines, ended, lineEnd] using hcut [] [] fun l hl => absurd hl List.not_mem_nil

theorem splitDeclaration_eq_none (rest : List (List Char))
    (hblank : ∀ l ∈ blank, isBlankLine l = true)
    (hline : isBlankLine line = false) (hfeed : '\n' ∉ line)
    (hopen : ¬ OpensDeclaration kind (line.dropWhile Text.isBlank)) :
    splitDeclaration kind (joinLines (blank ++ line :: rest)) = none := by
  have hfeed' : '\n' ∉ line.dropWhile Text.isBlank := fun h =>
    hfeed ((List.dropWhile_suffix _).subset h)
  rw [splitDeclaration_eq_none_iff, joinLines_append _ (by simp), joinLines_cons,
    List.append_assoc line, (span_isBlank hblank hline _).2, ← List.append_assoc,
    opensDeclaration_append hfeed' rest]
  exact hopen

theorem splitOther_line (rest : List (List Char)) (hblank : ∀ l ∈ blank, isBlankLine l = true)
    (hline : isBlankLine line = false) (hfeed : '\n' ∉ line) :
    splitOther (joinLines (blank ++ line :: rest)) =
      (ended blank ++ line ++ lineEnd rest, joinLines rest) := by
  have hfeed' : '\n' ∉ line.dropWhile Text.isBlank := fun h =>
    hfeed ((List.dropWhile_suffix _).subset h)
  have hspan := span_isBlank hblank hline (lineEnd rest ++ joinLines rest)
  rw [joinLines_append _ (by simp), joinLines_cons, List.append_assoc line, splitOther, hspan.1,
    hspan.2, ← List.append_assoc, splitLine_line hfeed']
  simp only [Prod.mk.injEq, and_true]
  rw [List.append_assoc, ← List.append_assoc (line.takeWhile _), List.takeWhile_append_dropWhile,
    List.append_assoc]

end Cut

theorem segmentsFrom_of_some {kind : Declaration} {before s following : List Char} {n : Nat}
    {d : DeclarationLine} (h : splitDeclaration kind s = some (d, following)) :
    segmentsFrom kind before n s =
      .declaration before (n + Text.lineFeeds d.indentation) d ::
        segmentsFrom kind (d.text.reverse ++ before) (n + Text.lineFeeds d.text) following := by
  cases s with
  | nil =>
    have := splitDeclaration_length_lt h
    simp at this
  | cons c s =>
    rw [segmentsFrom]
    split
    · next hsome =>
      cases hsome.symm.trans h
      rfl
    · next hnone => cases hnone.symm.trans h

theorem segmentsFrom_of_none {kind : Declaration} {before s : List Char} {n : Nat} (hs : s ≠ [])
    (h : splitDeclaration kind s = none) :
    segmentsFrom kind before n s =
      .other (splitOther s).1 ::
        segmentsFrom kind ((splitOther s).1.reverse ++ before)
          (n + Text.lineFeeds (splitOther s).1) (splitOther s).2 := by
  obtain ⟨c, s, rfl⟩ := List.exists_cons_of_ne_nil hs
  rw [segmentsFrom]
  split
  · next hsome => cases hsome.symm.trans h
  · rfl

theorem lineAfter_blank (rules : Rules) (above : List (List Char)) {line : List Char}
    (h : isBlankLine line = true) : lineAfter rules above line = line := by
  refine if_neg fun hline => ?_
  obtain ⟨kind, -, hopen⟩ := isDeclarationLine_iff.1 hline.1
  rw [hopen.isBlankLine] at h
  cases h

theorem linesAfter_blank (rules : Rules) (above : List (List Char)) {lines : List (List Char)}
    (h : ∀ line ∈ lines, isBlankLine line = true) : linesAfter rules above lines = lines := by
  induction lines generalizing above with
  | nil => rfl
  | cons line lines ih =>
    rw [linesAfter, lineAfter_blank _ _ (h line List.mem_cons_self),
      ih _ fun l hl => h l (List.mem_cons_of_mem _ hl)]

theorem linesAfter_append (rules : Rules) (above lines rest : List (List Char)) :
    linesAfter rules above (lines ++ rest) =
      linesAfter rules above lines ++ linesAfter rules (above ++ lines) rest := by
  induction lines generalizing above with
  | nil => simp [linesAfter]
  | cons line lines ih => simp [linesAfter, ih]

theorem rdropWhile_append_blank (above : List (List Char)) {blank : List (List Char)}
    (h : ∀ line ∈ blank, isBlankLine line = true) :
    (above ++ blank).rdropWhile isBlankLine =
      above.rdropWhile isBlankLine := by
  rw [List.rdropWhile, List.reverse_append,
    List.dropWhile_append_of_pos fun line hl => h line (List.mem_reverse.1 hl), List.rdropWhile]

/-- The window of a segment is the one that its line is judged by. -/
theorem holdsQualifier_window_iff (above : List (List Char)) {blank : List (List Char)}
    (habove : above.rdropWhile isBlankLine = above)
    (hblank : ∀ line ∈ blank, isBlankLine line = true) :
    holdsQualifier (window (ended above).reverse) = true ↔ SeesQualifier (above ++ blank) := by
  rw [SeesQualifier, textAbove, rdropWhile_append_blank above hblank, habove, holdsQualifier_iff,
    List.rtake_eq_reverse_take_reverse, window]

theorem exists_first_line (lines : List (List Char)) :
    (∀ line ∈ lines, isBlankLine line = true) ∨
      ∃ blank line rest, lines = blank ++ line :: rest ∧
        (∀ l ∈ blank, isBlankLine l = true) ∧ isBlankLine line = false := by
  cases hrest : lines.dropWhile isBlankLine with
  | nil => exact .inl (List.dropWhile_eq_nil_iff.1 hrest)
  | cons line rest =>
    refine .inr ⟨lines.takeWhile isBlankLine, line, rest, ?_,
      fun l hl => List.mem_takeWhile_imp hl, ?_⟩
    · rw [← hrest, List.takeWhile_append_dropWhile]
    · have := List.head?_dropWhile_not isBlankLine lines
      rwa [hrest] at this

theorem segmentsFrom_blank {kind : Declaration} {before s : List Char} {n : Nat}
    (h : ∀ c ∈ s, Text.isBlank c = true) :
    (segmentsFrom kind before n s).flatMap Segment.qualified = s ∧
      (segmentsFrom kind before n s).filterMap (Segment.insertion? kind) = [] := by
  cases s with
  | nil => simp [segmentsFrom]
  | cons c s =>
    have hdrop := List.dropWhile_eq_nil_iff.2 h
    have htake := List.takeWhile_eq_self_iff.2 h
    have hnone : splitDeclaration kind (c :: s) = none := by
      rw [splitDeclaration, hdrop]
      cases kind <;> rfl
    have hother : splitOther (c :: s) = (c :: s, []) := by
      simp [splitOther, hdrop, htake, Text.splitLine]
    rw [segmentsFrom_of_none (by simp) hnone, hother]
    simp [segmentsFrom, Segment.qualified, Segment.insertion?]

theorem joinLines_blank {lines : List (List Char)} (h : ∀ line ∈ lines, isBlankLine line = true) :
    ∀ c ∈ joinLines lines, Text.isBlank c = true := by
  induction lines with
  | nil => simp [joinLines]
  | cons line lines ih =>
    intro c hc
    rw [joinLines_cons, List.mem_append, List.mem_append] at hc
    rcases hc with (hc | hc) | hc
    · exact List.all_eq_true.1 (h line List.mem_cons_self) c hc
    · exact lineEnd_blank lines c hc
    · exact ih (fun l hl => h l (List.mem_cons_of_mem _ hl)) c hc

theorem joinLines_linesAfter (rules : Rules) (above rest : List (List Char)) (line : List Char)
    {blank : List (List Char)} (hblank : ∀ l ∈ blank, isBlankLine l = true) :
    joinLines (linesAfter rules above (blank ++ line :: rest)) =
      ended blank ++ lineAfter rules (above ++ blank) line ++ lineEnd rest ++
        joinLines (linesAfter rules (above ++ blank ++ [line]) rest) := by
  have hend : ∀ above, lineEnd (linesAfter rules above rest) = lineEnd rest := by
    intro above
    cases rest <;> simp [lineEnd, linesAfter]
  rw [linesAfter_append, linesAfter_blank _ _ hblank, linesAfter, joinLines_append _ (by simp),
    joinLines_cons, hend]
  simp only [List.append_assoc]

theorem lineInsertion?_blank (kind : Declaration) (above : List (List Char)) {line : List Char}
    (h : isBlankLine line = true) : lineInsertion? kind above line = none := by
  refine lineInsertion?_of_none above (splitDeclaration_eq_none_iff.2 fun hopen => ?_)
  rw [hopen.isBlankLine] at h
  cases h

theorem lineInsertions_blank (kind : Declaration) (above rest : List (List Char))
    {blank : List (List Char)} (h : ∀ line ∈ blank, isBlankLine line = true) :
    lineInsertions kind above (blank ++ rest) = lineInsertions kind (above ++ blank) rest := by
  induction blank generalizing above with
  | nil => simp
  | cons line blank ih =>
    rw [List.cons_append, lineInsertions, lineInsertion?_blank _ _ (h line List.mem_cons_self),
      ih _ fun l hl => h l (List.mem_cons_of_mem _ hl), ← List.append_cons]
    rfl

theorem lineFeeds_append (s t : List Char) :
    Text.lineFeeds (s ++ t) = Text.lineFeeds s + Text.lineFeeds t := List.count_append

theorem lineFeeds_eq_zero {s : List Char} (h : '\n' ∉ s) : Text.lineFeeds s = 0 :=
  List.count_eq_zero.2 h

theorem lineFeeds_ended {lines : List (List Char)} (h : ∀ line ∈ lines, '\n' ∉ line) :
    Text.lineFeeds (ended lines) = lines.length := by
  induction lines with
  | nil => rfl
  | cons line lines ih =>
    have hend : Text.lineFeeds ['\n'] = 1 := rfl
    rw [ended, List.flatMap_cons, ← ended, lineFeeds_append, lineFeeds_append,
      lineFeeds_eq_zero (h line List.mem_cons_self), hend,
      ih fun l hl => h l (List.mem_cons_of_mem _ hl), List.length_cons]
    omega

theorem lineFeeds_indentation {blank : List (List Char)} {line : List Char}
    (hfeeds : ∀ l ∈ blank, '\n' ∉ l) (hfeed : '\n' ∉ line) :
    Text.lineFeeds (ended blank ++ line.takeWhile Text.isBlank) = blank.length := by
  have hindent : '\n' ∉ line.takeWhile Text.isBlank := fun h =>
    hfeed ((List.takeWhile_prefix _).subset h)
  rw [lineFeeds_append, lineFeeds_ended hfeeds, lineFeeds_eq_zero hindent, Nat.add_zero]

/-- The number of the first line behind some blank lines and a line, when there is one. -/
theorem lineFeeds_segment {blank rest : List (List Char)} {line : List Char}
    (hfeeds : ∀ l ∈ blank, '\n' ∉ l) (hfeed : '\n' ∉ line) (hrest : rest ≠ []) :
    Text.lineFeeds (ended blank ++ line ++ lineEnd rest) = blank.length + 1 := by
  have hend : Text.lineFeeds (lineEnd rest) = 1 := by rw [lineEnd, if_neg hrest]; rfl
  rw [lineFeeds_append, lineFeeds_append, lineFeeds_ended hfeeds, lineFeeds_eq_zero hfeed, hend]

theorem trimStart_gap {gap : List Char} (hgap : ∀ b ∈ gap, Text.isInlineBlank b = true) {c : Char}
    (hc : Text.isWord c = true) (more : List Char) :
    Text.trimStart (gap ++ c :: more) = c :: more := by
  rw [Text.trimStart, List.dropWhile_append_of_pos fun b hb =>
      Text.isBlank_of_isInlineBlank (hgap b hb),
    List.dropWhile_cons_of_neg (by simp [isBlank_of_isWord hc])]

/-- A name ends inside its line. -/
theorem name_append_lineEnd (indentation keyword : List Char) {tail : List Char}
    (hname : opensWithName tail = true) (rest : List (List Char)) :
    (DeclarationLine.mk indentation keyword (tail ++ lineEnd rest)).name =
      (DeclarationLine.mk indentation keyword tail).name := by
  obtain ⟨gap, c, more, rfl, -, hgap, hc⟩ := opensWithName_iff.1 hname
  have hend : (lineEnd rest).takeWhile (fun c => Text.isAlphanumeric c || c == '_') = [] := by
    unfold lineEnd
    split_ifs <;> rfl
  rw [DeclarationLine.name, DeclarationLine.name, List.append_assoc, List.cons_append,
    trimStart_gap hgap hc, trimStart_gap hgap hc, ← List.cons_append, List.takeWhile_append, hend]
  split_ifs with hall
  · rw [List.append_nil]
    exact ((List.takeWhile_prefix _).eq_of_length hall).symm
  · rfl

/-- The first segment takes the blank lines in front and the first line that is not blank. -/
theorem exists_segment (kind : Declaration) (above rest : List (List Char)) {line : List Char}
    {blank : List (List Char)} (habove : above.rdropWhile isBlankLine = above)
    (hblank : ∀ l ∈ blank, isBlankLine l = true) (hline : isBlankLine line = false)
    (hfeeds : ∀ l ∈ blank, '\n' ∉ l) (hfeed : '\n' ∉ line) :
    ∃ segment m, segmentsFrom kind (ended above).reverse (above.length + 1)
          (joinLines (blank ++ line :: rest)) =
        segment :: segmentsFrom kind
          ((ended blank ++ line ++ lineEnd rest).reverse ++ (ended above).reverse) m
          (joinLines rest) ∧
      (rest ≠ [] → m = (above ++ blank ++ [line]).length + 1) ∧
      segment.qualified =
        ended blank ++ lineAfter (Rules.only kind) (above ++ blank) line ++ lineEnd rest ∧
      segment.insertion? kind = lineInsertion? kind (above ++ blank) line := by
  have hdecl : IsDeclarationLine (Rules.only kind) line ↔
      OpensDeclaration kind (line.dropWhile Text.isBlank) := isDeclarationLine_only
  have hnumber : rest ≠ [] →
      above.length + 1 + Text.lineFeeds (ended blank ++ line ++ lineEnd rest) =
        (above ++ blank ++ [line]).length + 1 := by
    intro hrest
    rw [lineFeeds_segment hfeeds hfeed hrest]
    simp only [List.length_append, List.length_singleton]
    omega
  by_cases hopen : OpensDeclaration kind (line.dropWhile Text.isBlank)
  · obtain ⟨keyword, -, tail, happend, hname, halone, hsplit⟩ :=
      splitDeclaration_eq_some hfeed hopen
    let d : DeclarationLine := ⟨ended blank ++ line.takeWhile Text.isBlank, keyword.toList,
      tail ++ lineEnd rest⟩
    have htext : d.text = ended blank ++ line ++ lineEnd rest := by
      calc d.text = ended blank ++ (line.takeWhile Text.isBlank ++ (keyword.toList ++ tail)) ++
            lineEnd rest := by simp only [d, DeclarationLine.text, List.append_assoc]
        _ = ended blank ++ line ++ lineEnd rest := by
          rw [happend, List.takeWhile_append_dropWhile]
    have hfound : above.length + 1 + Text.lineFeeds d.indentation =
        (above ++ blank).length + 1 := by
      rw [lineFeeds_indentation hfeeds hfeed, List.length_append]
      omega
    refine ⟨_, _, by rw [segmentsFrom_of_some (hsplit blank rest hblank), ← htext],
      fun hrest => ?_, ?_⟩
    · rw [htext, hnumber hrest]
    · have hwindow := holdsQualifier_window_iff above habove hblank
      by_cases hsees : SeesQualifier (above ++ blank)
      · rw [Segment.qualified, if_pos (hwindow.2 hsees), lineAfter, if_neg (fun h => h.2 hsees),
          Segment.insertion?, if_pos (hwindow.2 hsees), lineInsertion?, if_pos hsees]
        exact ⟨htext, rfl⟩
      · have hwindow := mt hwindow.1 hsees
        rw [Segment.qualified, if_neg hwindow, lineAfter, if_pos ⟨hdecl.2 hopen, hsees⟩,
          withQualifier, ← happend, Segment.insertion?, if_neg hwindow, lineInsertion?,
          if_neg hsees, halone, hfound]
        refine ⟨by simp only [List.append_assoc], ?_⟩
        rw [name_append_lineEnd _ _ hname]
        rfl
  · have hsplit := splitDeclaration_eq_none rest hblank hline hfeed hopen
    have halone : splitDeclaration kind line = none := by
      have hsingle : joinLines ([] ++ [line]) = line := by simp [joinLines]
      rw [← hsingle]
      exact splitDeclaration_eq_none [] (fun l hl => absurd hl List.not_mem_nil) hline hfeed hopen
    have hne : joinLines (blank ++ line :: rest) ≠ [] := by
      rw [joinLines_append _ (by simp), joinLines_cons]
      intro h
      simp only [List.append_eq_nil_iff] at h
      rw [h.2.1.1] at hline
      exact absurd hline (by decide)
    have hother := splitOther_line rest hblank hline hfeed
    refine ⟨_, _, by rw [segmentsFrom_of_none hne hsplit, hother], hnumber, ?_, ?_⟩
    · rw [lineAfter, if_neg (fun h => hopen (hdecl.1 h.1)), Segment.qualified]
    · rw [Segment.insertion?, lineInsertion?_of_none _ halone]

/-- The segments of lines, below lines of which the last is not blank. -/
theorem segmentsFrom_joinLines (kind : Declaration) (above lines : List (List Char))
    (habove : above.rdropWhile isBlankLine = above) (hfeed : ∀ line ∈ lines, '\n' ∉ line) :
    let found := segmentsFrom kind (ended above).reverse (above.length + 1) (joinLines lines)
    found.flatMap Segment.qualified = joinLines (linesAfter (Rules.only kind) above lines) ∧
      found.filterMap (Segment.insertion? kind) = lineInsertions kind above lines := by
  induction hlen : lines.length using Nat.strongRecOn generalizing above lines with
  | ind length ih =>
    intro found
    rcases exists_first_line lines with hblank | ⟨blank, line, rest, rfl, hblank, hline⟩
    · have hnone := lineInsertions_blank kind above [] hblank
      rw [List.append_nil] at hnone
      rw [linesAfter_blank _ _ hblank, hnone]
      exact segmentsFrom_blank (joinLines_blank hblank)
    · obtain ⟨segment, m, hcut, hnumber, hsegment, hinsertion⟩ :=
        exists_segment kind above rest habove hblank hline (fun l hl => hfeed l (by simp [hl]))
          (hfeed line (by simp))
      have hrest : (segmentsFrom kind ((ended blank ++ line ++ lineEnd rest).reverse ++
            (ended above).reverse) m (joinLines rest)).flatMap Segment.qualified =
            joinLines (linesAfter (Rules.only kind) (above ++ blank ++ [line]) rest) ∧
          (segmentsFrom kind ((ended blank ++ line ++ lineEnd rest).reverse ++
            (ended above).reverse) m (joinLines rest)).filterMap (Segment.insertion? kind) =
            lineInsertions kind (above ++ blank ++ [line]) rest := by
        cases rest with
        | nil => simp [segmentsFrom, joinLines, linesAfter, lineInsertions]
        | cons next rest =>
          have hbefore : (ended blank ++ line ++ lineEnd (next :: rest)).reverse ++
              (ended above).reverse = (ended (above ++ blank ++ [line])).reverse := by
            simp [ended, lineEnd]
          rw [hbefore, hnumber (by simp)]
          refine ih _ ?_ _ _ ?_ (fun l hl => hfeed l (by simp [hl])) rfl
          · simp only [List.length_append, List.length_cons] at hlen ⊢
            omega
          · exact List.rdropWhile_concat_neg _ _ _ (by simp [hline])
      simp only [found, hcut]
      constructor
      · rw [List.flatMap_cons, hsegment, joinLines_linesAfter _ _ _ _ hblank, hrest.1]
      · rw [lineInsertions_blank _ _ _ hblank, lineInsertions, ← hinsertion, ← hrest.2,
          List.filterMap_cons]
        cases segment.insertion? kind <;> rfl

theorem pass_joinLines (kind : Declaration) {lines : List (List Char)}
    (hfeed : ∀ line ∈ lines, '\n' ∉ line) :
    pass kind (joinLines lines) =
      (joinLines (linesAfter (Rules.only kind) [] lines), lineInsertions kind [] lines) := by
  obtain ⟨htext, hinsertions⟩ := segmentsFrom_joinLines kind [] lines rfl hfeed
  exact Prod.ext htext hinsertions

theorem newline_notMem_linesAfter (rules : Rules) (above : List (List Char))
    {lines : List (List Char)} (hfeed : ∀ line ∈ lines, '\n' ∉ line) :
    ∀ line ∈ linesAfter rules above lines, '\n' ∉ line := by
  induction lines generalizing above with
  | nil => simp [linesAfter]
  | cons line lines ih =>
    intro after hafter
    rcases List.mem_cons.1 hafter with rfl | hafter
    · have hline := hfeed line List.mem_cons_self
      rcases grown_lineAfter rules above line with heq | ⟨heq, -⟩
      · rwa [heq]
      · have hinserted : '\n' ∉ inserted := by decide
        rw [heq, withQualifier, List.mem_append, List.mem_append]
        rintro ((h | h) | h)
        · exact hline ((List.takeWhile_prefix _).subset h)
        · exact hinserted h
        · exact hline ((List.dropWhile_suffix _).subset h)
    · exact ih _ (fun l hl => hfeed l (List.mem_cons_of_mem _ hl)) _ hafter

theorem linesAfter_none (above lines : List (List Char)) :
    linesAfter ⟨false, false⟩ above lines = lines := by
  induction lines generalizing above with
  | nil => rfl
  | cons line lines ih =>
    rw [linesAfter, ih, lineAfter, if_neg]
    rintro ⟨⟨_, _, _, _, kind, hkind, _⟩, _⟩
    cases kind <;> cases hkind

/-- The pass for functions finds the lines as if the pass for types had left them alone. -/
theorem passes_joinLines (rules : Rules) {lines : List (List Char)}
    (hfeed : ∀ line ∈ lines, '\n' ∉ line) :
    passes rules.enabled (joinLines lines) =
      (joinLines (linesAfter rules [] lines),
        rules.enabled.flatMap fun kind => lineInsertions kind [] lines) := by
  have hpass : ∀ kind, passes (Rules.only kind).enabled (joinLines lines) =
      (joinLines (linesAfter (Rules.only kind) [] lines),
        (Rules.only kind).enabled.flatMap fun kind => lineInsertions kind [] lines) := by
    intro kind
    simp [Rules.enabled_only, passes, pass_joinLines kind hfeed]
  obtain ⟨types, functions⟩ := rules
  cases types <;> cases functions
  · exact Prod.ext (congrArg joinLines (linesAfter_none [] lines).symm) rfl
  · exact hpass .function
  · exact hpass .type
  · have hboth : (⟨true, true⟩ : Rules) = (Rules.only .type).both (Rules.only .function) := rfl
    have henabled : (⟨true, true⟩ : Rules).enabled = [.type, .function] := rfl
    have hbehind := pass_joinLines .function (newline_notMem_linesAfter (Rules.only .type) [] hfeed)
    rw [linesAfter_linesAfter .nil, ← hboth, lineInsertions_linesAfter .nil rfl] at hbehind
    simp [henabled, passes, pass_joinLines .type hfeed, hbehind]

theorem toList_qualify (rules : Rules) (text : String) :
    (qualify rules text).text.toList = (passes rules.enabled text.toList).1 :=
  String.toList_ofList

theorem toList_qualify_eq_joinLines (rules : Rules) (text : String) :
    (qualify rules text).text.toList =
      joinLines (linesAfter rules [] (text.toList.splitOn '\n')) := by
  have hpasses := passes_joinLines rules (Text.notMem_of_mem_splitOn '\n' text.toList)
  rw [joinLines, List.intercalate_splitOn] at hpasses
  rw [toList_qualify, hpasses]

theorem lines_qualify (rules : Rules) (text : String) :
    (qualify rules text).text.toList.splitOn '\n' =
      linesAfter rules [] (text.toList.splitOn '\n') := by
  have hne : linesAfter rules [] (text.toList.splitOn '\n') ≠ [] := by
    cases hs : text.toList.splitOn '\n' with
    | nil => exact absurd hs (List.splitOn_ne_nil _ _)
    | cons line rest => simp [linesAfter]
  rw [toList_qualify_eq_joinLines, joinLines, List.splitOn_intercalate '\n' _ hne]
  exact newline_notMem_linesAfter rules [] (Text.notMem_of_mem_splitOn '\n' _)

theorem linesAfter_eq_mapIdx (rules : Rules) (above lines : List (List Char)) :
    linesAfter rules above lines =
      lines.mapIdx fun i line => lineAfter rules (above ++ lines.take i) line := by
  induction lines generalizing above with
  | nil => rfl
  | cons line lines ih => simp [linesAfter, ih, List.mapIdx_cons]

end ExplicitApi.Qualify
