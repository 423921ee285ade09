import ExplicitApi.Proofs.Report.Annotations

/-!
Texts without their colours. Main statement: colouring the human layout or the banner adds sequences
that are erased again and nothing else, whatever pieces of such sequences stand in a path or a name.
-/
namespace ExplicitApi.Report

section Erasing

/-- A sequence that changes the colour: an escape, a bracket, digits and an m. -/
def IsColor (color : List Char) : Prop :=
  ∃ digits, digits ≠ [] ∧ (∀ c ∈ digits, c.isDigit = true) ∧
    color = '\x1b' :: '[' :: (digits ++ ['m'])

/-- What follows the colour that opens a text. -/
def afterColor? (s : List Char) : Option (List Char) := do
  let s ← Text.afterPhrase? ['\x1b', '['] s
  if (s.takeWhile Char.isDigit).isEmpty then none
  else Text.afterPhrase? ['m'] (s.dropWhile Char.isDigit)

theorem afterColor?_eq_some_iff {s rest : List Char} :
    afterColor? s = some rest ↔ ∃ color, IsColor color ∧ color ++ rest = s := by
  simp only [afterColor?, Option.bind_eq_bind, Option.bind_eq_some_iff,
    Text.afterPhrase?_eq_some_iff]
  constructor
  · rintro ⟨t, rfl, h⟩
    split_ifs at h with hdigits
    have hm := Text.afterPhrase?_eq_some_iff.1 h
    refine ⟨_, ⟨t.takeWhile Char.isDigit, by simpa using hdigits,
      fun c hc => List.mem_takeWhile_imp hc, rfl⟩, ?_⟩
    simp only [List.cons_append, List.append_assoc, List.nil_append] at hm ⊢
    rw [hm, List.takeWhile_append_dropWhile]
  · rintro ⟨_, ⟨digits, hne, hdigits, rfl⟩, rfl⟩
    have hend : 'm'.isDigit = false := rfl
    refine ⟨digits ++ 'm' :: rest, by simp, ?_⟩
    rw [List.takeWhile_append_of_pos hdigits, List.dropWhile_append_of_pos hdigits]
    simp [hend, hne, Text.afterPhrase?]

theorem afterColor?_length_lt {s rest : List Char} (h : afterColor? s = some rest) :
    rest.length < s.length := by
  obtain ⟨_, ⟨digits, -, -, rfl⟩, rfl⟩ := afterColor?_eq_some_iff.1 h
  simp only [List.length_append, List.length_cons]
  omega

/-- A text without its colours, each found from left to right behind the one before. -/
def eraseColors : List Char → List Char
  | [] => []
  | c :: s =>
    match _h : afterColor? (c :: s) with
    | some rest => eraseColors rest
    | none => c :: eraseColors s
  termination_by s => s.length
  decreasing_by
    · exact afterColor?_length_lt ‹_›
    · exact Nat.lt_succ_self _

theorem eraseColors_of_some {s rest : List Char} (h : afterColor? s = some rest) :
    eraseColors s = eraseColors rest := by
  cases s with
  | nil => cases h
  | cons c s =>
    rw [eraseColors]
    split
    · next hsome =>
      cases hsome.symm.trans h
      rfl
    · next hnone => cases hnone.symm.trans h

theorem eraseColors_of_none {c : Char} {s : List Char} (h : afterColor? (c :: s) = none) :
    eraseColors (c :: s) = c :: eraseColors s := by
  rw [eraseColors]
  split
  · next hsome => cases hsome.symm.trans h
  · rfl

def StartsApart (s : List Char) : Prop := ∀ c ∈ s.head?, c ≠ '[' ∧ c ≠ 'm' ∧ c.isDigit = false

theorem startsApart_cons {c : Char} (hc : c ≠ '[' ∧ c ≠ 'm' ∧ c.isDigit = false) (s : List Char) :
    StartsApart (c :: s) := by
  rintro _ ⟨⟩
  exact hc

theorem IsColor.startsApart {color : List Char} (h : IsColor color) (s : List Char) :
    StartsApart (color ++ s) := by
  obtain ⟨digits, -, -, rfl⟩ := h
  exact startsApart_cons (by decide) _

/-- Only the first character of a colour is one that a text can go on with behind another. -/
theorem IsColor.not_startsApart {color front back : List Char} (h : IsColor color)
    (heq : color = front ++ back) (hfront : front ≠ []) (hback : back ≠ []) (s : List Char) :
    ¬StartsApart (back ++ s) := by
  obtain ⟨digits, -, hdigits, rfl⟩ := h
  obtain ⟨c, front, rfl⟩ := List.exists_cons_of_ne_nil hfront
  obtain ⟨d, back, rfl⟩ := List.exists_cons_of_ne_nil hback
  intro hapart
  obtain ⟨hbracket, hm, hdigit⟩ := hapart d rfl
  have hmem : d ∈ '[' :: (digits ++ ['m']) := by
    rw [(List.cons.inj heq).2]
    simp
  rcases List.mem_cons.1 hmem with rfl | hmem
  · exact hbracket rfl
  · rcases List.mem_append.1 hmem with hmem | hmem
    · rw [hdigits d hmem] at hdigit
      cases hdigit
    · exact hm (List.mem_singleton.1 hmem)

/-- No colour reaches into a text that starts apart. -/
theorem afterColor?_append {s t : List Char} (hs : s ≠ []) (ht : StartsApart t) :
    afterColor? (s ++ t) = (afterColor? s).map (· ++ t) := by
  ext rest
  rw [Option.map_eq_some_iff]
  simp only [afterColor?_eq_some_iff]
  constructor
  · rintro ⟨color, hcolor, heq⟩
    -- the colour ends in the first text, or it would go on with the second
    rcases List.append_eq_append_iff.1 heq with ⟨beyond, rfl, rfl⟩ | ⟨beyond, hsplit, rfl⟩
    · exact ⟨beyond, ⟨color, hcolor, rfl⟩, rfl⟩
    · cases beyond with
      | nil => exact ⟨[], ⟨color, hcolor, by simpa using hsplit⟩, rfl⟩
      | cons d beyond =>
        exact absurd ht (hcolor.not_startsApart hsplit hs (List.cons_ne_nil _ _) rest)
  · rintro ⟨more, ⟨color, hcolor, rfl⟩, rfl⟩
    exact ⟨color, hcolor, (List.append_assoc _ _ _).symm⟩

theorem eraseColors_append {s t : List Char} (ht : StartsApart t) :
    eraseColors (s ++ t) = eraseColors s ++ eraseColors t := by
  fun_induction eraseColors s with
  | case1 => rfl
  | case2 c s rest h ih =>
    have happend := afterColor?_append (List.cons_ne_nil c s) ht
    rw [h, Option.map_some] at happend
    rw [eraseColors_of_some happend, ih]
  | case3 c s h ih =>
    have happend := afterColor?_append (List.cons_ne_nil c s) ht
    rw [h, Option.map_none] at happend
    rw [List.cons_append] at happend ⊢
    rw [eraseColors_of_none happend, ih, List.cons_append]

theorem eraseColors_color {color : List Char} (h : IsColor color) (s : List Char) :
    eraseColors (color ++ s) = eraseColors s :=
  eraseColors_of_some (afterColor?_eq_some_iff.2 ⟨color, h, rfl⟩)

example : eraseColors "a\x1b[1\x1b[2mb".toList = "a\x1b[1b".toList := by cbv

theorem eraseColors_cons_of_ne {c : Char} (hc : c ≠ '\x1b') (s : List Char) :
    eraseColors (c :: s) = c :: eraseColors s := by
  refine eraseColors_of_none (Option.eq_none_iff_forall_ne_some.2 fun rest hrest => hc ?_)
  obtain ⟨_, ⟨digits, -, -, rfl⟩, heq⟩ := afterColor?_eq_some_iff.1 hrest
  exact (List.cons.inj heq).1.symm

theorem eraseColors_append_of_notMem {s : List Char} (h : '\x1b' ∉ s) (t : List Char) :
    eraseColors (s ++ t) = s ++ eraseColors t := by
  induction s with
  | nil => rfl
  | cons c s ih =>
    have hc : c ≠ '\x1b' := fun heq => h (heq ▸ List.mem_cons_self)
    rw [List.cons_append, eraseColors_cons_of_ne hc, ih fun hs => h (List.mem_cons_of_mem c hs),
      List.cons_append]

end Erasing

def IsBare (s : String) : Prop := '\x1b' ∉ s.toList

instance (s : String) : Decidable (IsBare s) := inferInstanceAs (Decidable (¬_))

def uncolored (s : String) : String := String.ofList (eraseColors s.toList)

section Lines

theorem uncolored_append_of_isBare {s : String} (h : IsBare s) (t : String) :
    uncolored (s ++ t) = s ++ uncolored t := by
  rw [uncolored, String.toList_append, eraseColors_append_of_notMem h, String.ofList_append,
    String.ofList_toList, uncolored]

theorem uncolored_of_isBare {s : String} (h : IsBare s) : uncolored s = s := by
  have hend := eraseColors_append_of_notMem h []
  rw [List.append_nil, eraseColors, List.append_nil] at hend
  rw [uncolored, hend, String.ofList_toList]

/-- Lines are uncoloured one by one, since a line feed ends every colour. -/
theorem uncolored_unlines (lines : List String) :
    uncolored (unlines lines) = unlines (lines.map uncolored) := by
  rw [← String.toList_inj, uncolored, String.toList_ofList, toList_unlines, toList_unlines]
  induction lines with
  | nil => rw [List.flatMap_nil, eraseColors, List.map_nil, List.flatMap_nil]
  | cons line lines ih =>
    have hapart := startsApart_cons (c := '\n') (by decide)
    rw [List.flatMap_cons, List.append_assoc, List.singleton_append,
      eraseColors_append (hapart _), eraseColors_cons_of_ne (by decide), ih, List.map_cons,
      List.flatMap_cons, uncolored, String.toList_ofList, List.append_assoc, List.singleton_append]

theorem uncolored_unlines_of_isBare {lines : List String} (h : ∀ line ∈ lines, IsBare line) :
    uncolored (unlines lines) = unlines lines := by
  rw [uncolored_unlines, List.map_congr_left fun line hline => uncolored_of_isBare (h line hline),
    List.map_id']

theorem uncolored_painted {code : String} (hne : code.toList ≠ [])
    (hdigits : code.toList.all Char.isDigit = true) (colors : Bool) (text : String) :
    uncolored (painted colors code text) = uncolored text := by
  cases colors with
  | false => rfl
  | true =>
    have hon : IsColor ("\x1b[" ++ code ++ "m").toList :=
      ⟨code.toList, hne, List.all_eq_true.1 hdigits, by simp⟩
    have hoff : IsColor "\x1b[0m".toList :=
      ⟨['0'], by decide, List.forall_mem_singleton.2 rfl, by decide⟩
    have hback : eraseColors "\x1b[0m".toList = [] := by
      have hend := eraseColors_color hoff []
      rwa [List.append_nil, eraseColors] at hend
    have hapart : StartsApart "\x1b[0m".toList := by
      simpa using hoff.startsApart []
    rw [uncolored, painted, if_pos rfl, String.toList_append, String.toList_append,
      List.append_assoc, eraseColors_color hon, eraseColors_append hapart, hback, List.append_nil,
      uncolored]

end Lines

section Layouts

variable {style : Style} {r : Report}

theorem uncolored_outcomeLines (style : Style) (o : Change) :
    (outcomeLines { style with colors := true } o).map uncolored =
      (outcomeLines { style with colors := false } o).map uncolored := by
  have hindent : IsBare "  " := by decide
  have hline : ∀ colors text,
      uncolored ("  " ++ painted colors "2" text) = "  " ++ uncolored text := by
    intro colors text
    rw [uncolored_append_of_isBare hindent, uncolored_painted (by decide) (by decide)]
  cases style.details <;> simp [outcomeLines, hline]

theorem uncolored_summaryLines (style : Style) (s : Summary) :
    (summaryLines { style with colors := true } s).map uncolored =
      (summaryLines { style with colors := false } s).map uncolored := by
  have hbold : ∀ colors text, uncolored (painted colors "1" text) = uncolored text :=
    uncolored_painted (by decide) (by decide)
  have hmodified : ∀ colors text,
      uncolored (painted colors (if 0 < s.filesModified then "32" else "2") text) =
        uncolored text := by
    split_ifs
    · exact uncolored_painted (by decide) (by decide)
    · exact uncolored_painted (by decide) (by decide)
  simp only [summaryLines, List.map_append, List.map_cons, List.map_nil, hbold, hmodified]

theorem uncolored_mode (colors : Bool) (mode : Mode) :
    uncolored (painted colors (if mode.isDry then "33" else "36") mode.description) =
      uncolored mode.description := by
  cases mode
  · exact uncolored_painted (by decide) (by decide) colors _
  · exact uncolored_painted (by decide) (by decide) colors _

theorem uncolored_humanLines (style : Style) (r : Report) :
    (humanLines { style with colors := true } r).map uncolored =
      (humanLines { style with colors := false } r).map uncolored := by
  have hfailure : ∀ colors text, uncolored (painted colors "31" text) = uncolored text :=
    uncolored_painted (by decide) (by decide)
  have hlisted : listed { style with colors := true } r = listed { style with colors := false } r :=
    rfl
  simp only [humanLines, List.map_append, List.map_flatMap, List.map_map, Function.comp_def,
    hfailure, uncolored_outcomeLines, uncolored_summaryLines, hlisted]

end Layouts

section Bare

variable {s t : String} {r : Report}

theorem isBare_append : IsBare (s ++ t) ↔ IsBare s ∧ IsBare t := by
  simp only [IsBare, String.toList_append, List.mem_append, not_or]

theorem isBare_toString (n : Nat) : IsBare (toString n) := Text.notMem_toString rfl n

theorem isBare_display {i : Insertion} (hkeyword : IsBare i.keyword) (hname : IsBare i.name) :
    IsBare i.display := by
  have hshown : IsBare (toString i.line.toNat ++ ": " ++ Qualifier.inserted.text ++ " " ++
      i.keyword ++ " " ++ i.name) := by
    have htexts : IsBare ": " ∧ IsBare Qualifier.inserted.text ∧ IsBare " " := by decide
    simp only [isBare_append, isBare_toString, htexts, hkeyword, hname, and_self]
  intro hmem
  rw [Insertion.display, String.toList_ofList, Text.trimEnd, List.mem_reverse] at hmem
  exact hshown (List.mem_reverse.1 ((List.dropWhile_suffix _).subset hmem))

theorem isBare_failure {f : Failure} (hpath : IsBare f.path.spelling)
    (hmessage : IsBare f.message) : IsBare f.display := by
  have htexts : IsBare "Failed to process " ∧ IsBare ": " := by decide
  unfold Failure.display
  simp only [isBare_append, htexts, hpath, hmessage, and_self]

/-- The texts of a report that its human layout can show. -/
def texts (r : Report) : List String :=
  (r.files.flatMap fun o => o.path.spelling :: o.insertions.flatMap fun i => [i.keyword, i.name]) ++
    r.failures.flatMap fun f => [f.path.spelling, f.message]

theorem isBare_of_mem_outcomeLines {o : Change} (hpath : IsBare o.path.spelling)
    (hinsertions : ∀ i ∈ o.insertions, IsBare i.keyword ∧ IsBare i.name) (style : Style) :
    ∀ line ∈ outcomeLines { style with colors := false } o, IsBare line := by
  have htexts : IsBare "Fixing visibility in: " ∧ IsBare "  " := by decide
  intro line hline
  rcases List.mem_cons.1 hline with rfl | hline
  · exact isBare_append.2 ⟨htexts.1, hpath⟩
  · split_ifs at hline
    · obtain ⟨i, hi, rfl⟩ := List.mem_map.1 hline
      obtain ⟨hkeyword, hname⟩ := hinsertions i hi
      exact isBare_append.2 ⟨htexts.2, isBare_display hkeyword hname⟩
    · cases hline

theorem isBare_of_mem_summaryLines (style : Style) (s : Summary) :
    ∀ line ∈ summaryLines { style with colors := false } s, IsBare line := by
  have htexts : IsBare "Completed processing " ∧ IsBare " files" ∧ IsBare "Modified " ∧
      IsBare "Skipped " ∧ IsBare " unchanged files (cached)" ∧
      IsBare "Stopped at the first failure; remaining files were not processed" := by
    decide
  intro line hline
  simp only [summaryLines, painted, Bool.false_eq_true, if_false, List.mem_append, List.mem_cons,
    List.not_mem_nil, or_false] at hline
  rcases hline with ((rfl | rfl) | hline) | hline
  · simp only [isBare_append, isBare_toString, htexts, and_self]
  · simp only [isBare_append, isBare_toString, htexts, and_self]
  · split_ifs at hline
    · rw [List.mem_singleton.1 hline]
      simp only [isBare_append, isBare_toString, htexts, and_self]
    · cases hline
  · split_ifs at hline
    · rw [List.mem_singleton.1 hline]
      exact htexts.2.2.2.2.2
    · cases hline

theorem isBare_of_mem_humanLines (h : ∀ s ∈ r.texts, IsBare s) (style : Style) :
    ∀ line ∈ humanLines { style with colors := false } r, IsBare line := by
  obtain ⟨hfiles, hfailures⟩ := List.forall_mem_append.1 h
  intro line hline
  rcases List.mem_append.1 hline with hline | hline
  · rcases List.mem_append.1 hline with hline | hline
    · obtain ⟨o, ho, hline⟩ := List.mem_flatMap.1 hline
      obtain ⟨hpath, hinsertions⟩ :=
        List.forall_mem_cons.1 (List.forall_mem_flatMap.1 hfiles o (listed_subset _ r ho))
      refine isBare_of_mem_outcomeLines hpath (fun i hi => ?_) style line hline
      simpa using List.forall_mem_flatMap.1 hinsertions i hi
    · obtain ⟨f, hf, rfl⟩ := List.mem_map.1 hline
      have hfailure : IsBare f.path.spelling ∧ IsBare f.message := by
        simpa using List.forall_mem_flatMap.1 hfailures f hf
      exact isBare_failure hfailure.1 hfailure.2
  · exact isBare_of_mem_summaryLines style r.summary line hline

theorem isBare_of_mem_bannerLines {root : Path} (h : IsBare root.spelling) (mode : Mode) :
    ∀ line ∈ ["Scanning Kotlin files in: " ++ root.spelling, mode.description], IsBare line := by
  have hfront : IsBare "Scanning Kotlin files in: " := by decide
  have hmode : IsBare mode.description := by cases mode <;> decide
  intro line hline
  rcases List.mem_cons.1 hline with rfl | hline
  · exact isBare_append.2 ⟨hfront, h⟩
  · rw [List.mem_singleton.1 hline]
    exact hmode

end Bare

/--
Erasing colours gives one text with and without them, the plain one unless something shown has an
escape.
-/
theorem colors_decorate (style : Style) (r : Report) (root : Path) (mode : Mode) :
    uncolored (r.format { style with colors := true } .human) =
        uncolored (r.format { style with colors := false } .human) ∧
      ((∀ s ∈ r.texts, IsBare s) → uncolored (r.format { style with colors := true } .human) =
        r.format { style with colors := false } .human) ∧
      uncolored (banner true root mode) = uncolored (banner false root mode) ∧
      (IsBare root.spelling → uncolored (banner true root mode) = banner false root mode) := by
  have hhuman : uncolored (r.format { style with colors := true } .human) =
      uncolored (r.format { style with colors := false } .human) := by
    rw [format, format, uncolored_unlines, uncolored_unlines, uncolored_humanLines]
  have hbanner : uncolored (banner true root mode) = uncolored (banner false root mode) := by
    rw [banner, banner, uncolored_unlines, uncolored_unlines]
    simp only [List.map_cons, uncolored_mode]
  refine ⟨hhuman, fun h => ?_, hbanner, fun h => ?_⟩
  · rw [hhuman]
    exact uncolored_unlines_of_isBare (isBare_of_mem_humanLines h style)
  · rw [hbanner]
    exact uncolored_unlines_of_isBare (isBare_of_mem_bannerLines h mode)

/-- A change in a file whose name looks like a colour and a file that could not be read. -/
theorem colors_decorate_twoFiles :
    let r := ((Report.start .dry .epoch).add
      (.modified ⟨⟨"src/[1m.kt"⟩, [⟨.type, 3, "class", "A"⟩], false⟩)).add
        (.failed ⟨⟨"src/B.kt"⟩, "Failed to read file"⟩)
    (∀ s ∈ r.texts, IsBare s) ∧ IsBare "src" ∧
      uncolored (r.format { details := true } .human) = "Fixing visibility in: src/[1m.kt\n" ++
        "  3: public class A\n" ++ "Failed to process src/B.kt: Failed to read file\n" ++
        "Completed processing 2 files\n" ++ "Modified 1 files\n" ∧
      uncolored (banner true ⟨"src"⟩ .dry) = "Scanning Kotlin files in: src\n" ++
        "Dry run mode - no files will be modified\n" := by
  intro r
  have hbare : (∀ s ∈ r.texts, IsBare s) ∧ IsBare "src" := by decide
  obtain ⟨-, hhuman, -, hbanner⟩ := colors_decorate { details := true } r ⟨"src"⟩ .dry
  refine ⟨hbare.1, hbare.2, (hhuman hbare.1).trans ?_, (hbanner hbare.2).trans ?_⟩
  · decide +kernel
  · decide +kernel

end ExplicitApi.Report
