import ExplicitApi.Command.Arguments
import ExplicitApi.Proofs.Results
import Mathlib.Data.List.TakeWhile

/-!
Directories on the command line. Main statement: words that ask for a run over a directory are read
so whatever the directory is called, unless it is called `help` or the name of a command is looked
for in another word than the first argument.
-/
namespace ExplicitApi.Command

namespace WordKind

variable {word : String}

theorem toList_of_long {body : List Char} (h : ofWord word = .long body) :
    word.toList = '-' :: '-' :: body := by
  unfold ofWord at h
  split at h <;> simp_all

theorem toList_of_short {names : List Char} (h : ofWord word = .short names) :
    word.toList = '-' :: names := by
  unfold ofWord at h
  split at h <;> simp_all

theorem ofWord_of_letter {c : Char} (hc : c ≠ '-') (h : word.toList = ['-', c]) :
    ofWord word = .short [c] := by
  unfold ofWord
  rw [h]
  split <;> simp_all

theorem eq_of_divider (h : ofWord word = .divider) : word = "--" := by
  unfold ofWord at h
  split at h
  · next hword => exact String.toList_injective hword
  all_goals cases h

end WordKind

def TakesValue (c : Char) : Prop := ∃ s, Grammar.top.switchOfShort? c = some s ∧ s.takesValue = true

/--
Whether a word is made of several short names, the last of which alone has a value, so that the next
word is that value.
-/
def IsOpenBundle (word : String) : Prop :=
  ∃ flags name, flags ≠ [] ∧ word.toList = '-' :: (flags ++ [name]) ∧
    (∀ c ∈ flags, ¬TakesValue c) ∧ TakesValue name

namespace Grammar

variable {grammar : Grammar} {s : Switch}

theorem of_switchOfLong? {name : String} (h : grammar.switchOfLong? name = some s) :
    s ∈ grammar.switches ∧ s.long = name := by
  unfold switchOfLong? at h
  have hname := List.find?_some h
  exact ⟨List.mem_of_find?_eq_some h, eq_of_beq hname⟩

theorem of_switchOfShort? {c : Char} (h : grammar.switchOfShort? c = some s) :
    s ∈ grammar.switches ∧ s.short? = some c := by
  unfold switchOfShort? at h
  have hname := List.find?_some h
  exact ⟨List.mem_of_find?_eq_some h, eq_of_beq hname⟩

end Grammar

namespace Given

variable {grammar : Grammar} {g g' : Given} {waiting : Option Switch}

theorem argument_addSwitch {s : Switch} {value : String} (h : g.addSwitch s value = .ok g') :
    g'.argument = g.argument := by
  unfold addSwitch at h
  split at h
  · cases h
  · cases h
  · split at h
    · cases h
    · cases h
      rfl

/-- A long name is that of an option, which waits for a value or is taken in. -/
theorem readLong_eq_ok {body : List Char} (h : g.readLong grammar body = .ok (g', waiting)) :
    ∃ s, (waiting = some s ∧ g' = g ∧ s.takesValue = true ∧
        grammar.switchOfLong? (String.ofList body) = some s) ∨
      waiting = none ∧ ∃ value, g.addSwitch s value = .ok g' := by
  unfold readLong at h
  dsimp only at h
  split at h
  · next s hs =>
    refine ⟨s, ?_⟩
    split at h
    · next hdrop htakes =>
      have hwhole : body.takeWhile (· != '=') = body := by
        have hlength := List.drop_eq_nil_iff.1 hdrop
        exact (List.takeWhile_prefix _).eq_of_length_le hlength
      cases h
      rw [hwhole] at hs
      exact .inl ⟨rfl, rfl, htakes, hs⟩
    · obtain ⟨g₁, hg₁, h⟩ := bind_eq_ok_iff.1 h
      cases h
      exact .inr ⟨rfl, _, hg₁⟩
    · obtain ⟨g₁, hg₁, h⟩ := bind_eq_ok_iff.1 h
      cases h
      exact .inr ⟨rfl, _, hg₁⟩
    · cases h
  · cases h

theorem readLong_of_name (g : Given) {name : List Char} {s : Switch} (hname : '=' ∉ name)
    (hs : grammar.switchOfLong? (String.ofList name) = some s) (htakes : s.takesValue = true) :
    g.readLong grammar name = .ok (g, some s) := by
  have hwhole : name.takeWhile (· != '=') = name := by
    rw [List.takeWhile_eq_self_iff]
    intro c hc
    exact bne_iff_ne.2 fun heq => hname (heq ▸ hc)
  unfold readLong
  simp only [hwhole, hs, List.drop_length, htakes]
  rfl

/-- Of short names that share a word, only the last one waits for a value. -/
theorem readShort_eq_ok {names : List Char} (h : g.readShort .top names = .ok (g', waiting)) :
    g'.argument = g.argument ∧ ∀ s, waiting = some s → ∃ flags name, names = flags ++ [name] ∧
      (∀ c ∈ flags, ¬TakesValue c) ∧ Grammar.top.switchOfShort? name = some s ∧
      s.takesValue = true := by
  fun_induction g.readShort .top names with
  | case1 g =>
    cases h
    exact ⟨rfl, nofun⟩
  | case2 | case6 => cases h
  | case3 g c s hs htakes =>
    cases h
    refine ⟨rfl, fun s' hs' => ?_⟩
    cases hs'
    exact ⟨[], c, rfl, nofun, hs, htakes⟩
  | case4 g c rest s hs htakes hrest =>
    cases hadd : g.addSwitch s (String.ofList (attached rest)) with
    | error e =>
      rw [hadd] at h
      cases h
    | ok g₁ =>
      rw [hadd] at h
      cases h
      exact ⟨argument_addSwitch hadd, nofun⟩
  | case5 g c rest s hs hflag g₁ hadd ih =>
    obtain ⟨hargument, hbundle⟩ := ih h
    refine ⟨hargument.trans (argument_addSwitch hadd), fun s' hs' => ?_⟩
    obtain ⟨flags, name, hnames, hflags, hname, htakes⟩ := hbundle s' hs'
    refine ⟨c :: flags, name, by rw [hnames]; rfl, ?_, hname, htakes⟩
    refine List.forall_mem_cons.2 ⟨?_, hflags⟩
    rintro ⟨s'', hs'', htakes'⟩
    cases hs.symm.trans hs''
    exact hflag htakes'

theorem readShort_top (g : Given) (names : List Char) :
    g.readShort .top names = g.readShort .directoryRun names := by
  induction names generalizing g with
  | nil => rfl
  | cons c rest ih =>
    have hsame : Grammar.top.switchOfShort? c = Grammar.directoryRun.switchOfShort? c := rfl
    simp only [readShort, hsame, ih]

theorem addArgument_eq_ok {d : String} (h : g.addArgument .directoryRun d = .ok g') :
    g.argument = none ∧ g'.argument = some d := by
  unfold addArgument at h
  split at h
  · next hnone =>
    split at h
    · cases h
    · cases h
      exact ⟨hnone, rfl⟩
  · next hargument _ => cases hargument
  · cases h

theorem argument_of_fixRequest {d : String} (h : g.fixRequest.directory = some ⟨d⟩) :
    g.argument = some d := by
  obtain ⟨d', hd', hsame⟩ := Option.map_eq_some_iff.1 h
  cases hsame
  exact hd'

/-- Only one word can be taken in as the argument. -/
theorem eq_singleton_of_foldlM {words : List String} {d : String}
    (h : words.foldlM (addArgument .directoryRun) g = .ok g') (hnone : g.argument = none)
    (hd : g'.argument = some d) : words = [d] := by
  cases words with
  | nil =>
    cases h
    cases hnone.symm.trans hd
  | cons word words =>
    obtain ⟨g₁, hadd, hrest⟩ := bind_eq_ok_iff.1 h
    have hword : g₁.argument = some word := (addArgument_eq_ok hadd).2
    cases words with
    | nil =>
      cases hrest
      rw [Option.some.inj (hword.symm.trans hd)]
    | cons next words =>
      obtain ⟨g₂, hnext, -⟩ := bind_eq_ok_iff.1 hrest
      cases hword.symm.trans (addArgument_eq_ok hnext).1

end Given

section Reading

variable {grammar : Grammar} {g g' g₁ g₂ : Given} {waiting : Option Switch} {s : Switch}
  {word value d : String} {words rest front : List String}
  {result : Given × Option (Verb × List String)}

theorem readSwitch_top (g : Given) (kind : WordKind) :
    readSwitch .top g kind = readSwitch .directoryRun g kind := by
  cases kind with
  | short names => exact g.readShort_top names
  | plain | divider | long body => rfl

/-- What is read as an option is a long name or short ones. -/
theorem readSwitch_eq_ok (h : readSwitch grammar g (.ofWord word) = .ok (g', waiting)) :
    (∃ body, WordKind.ofWord word = .long body ∧ g.readLong grammar body = .ok (g', waiting)) ∨
      ∃ names, WordKind.ofWord word = .short names ∧
        g.readShort grammar names = .ok (g', waiting) := by
  cases hword : WordKind.ofWord word with
  | plain | divider =>
    rw [hword] at h
    cases h
  | long body =>
    rw [hword] at h
    exact .inl ⟨body, rfl, h⟩
  | short names =>
    rw [hword] at h
    exact .inr ⟨names, rfl, h⟩

theorem argument_readSwitch (h : readSwitch .top g (.ofWord word) = .ok (g', waiting)) :
    g'.argument = g.argument := by
  obtain ⟨body, -, hread⟩ | ⟨names, -, hread⟩ := readSwitch_eq_ok h
  · obtain ⟨s, ⟨-, rfl, -⟩ | ⟨-, value, hadd⟩⟩ := Given.readLong_eq_ok hread
    · rfl
    · exact Given.argument_addSwitch hadd
  · exact (Given.readShort_eq_ok hread).1

/-- An option starts with a hyphen and is not the divider. -/
theorem ne_divider_of_readSwitch (h : readSwitch .top g (.ofWord word) = .ok (g', waiting)) :
    word ≠ "--" ∧ word.toList.head? = some '-' := by
  obtain ⟨body, hword, -⟩ | ⟨names, hword, -⟩ := readSwitch_eq_ok h
  · refine ⟨?_, by rw [WordKind.toList_of_long hword]; rfl⟩
    rintro rfl
    cases hword
  · refine ⟨?_, by rw [WordKind.toList_of_short hword]; rfl⟩
    rintro rfl
    cases hword

theorem readWords_flag (h : readSwitch grammar g (.ofWord word) = .ok (g₁, none))
    (rest : List String) : readWords grammar g (word :: rest) = readWords grammar g₁ rest := by
  rw [readWords]
  obtain ⟨body, hword, -⟩ | ⟨names, hword, -⟩ := readSwitch_eq_ok h
  all_goals
    rw [hword] at h ⊢
    dsimp only
    rw [h]
    rfl

theorem readWords_value (h : readSwitch grammar g (.ofWord word) = .ok (g₁, some s))
    (hvalue : WordKind.ofWord value = .plain) (hadd : g₁.addSwitch s value = .ok g₂)
    (rest : List String) :
    readWords grammar g (word :: value :: rest) = readWords grammar g₂ rest := by
  rw [readWords]
  obtain ⟨body, hword, -⟩ | ⟨names, hword, -⟩ := readSwitch_eq_ok h
  all_goals
    rw [hword] at h ⊢
    dsimp only
    rw [h, ok_bind]
    dsimp only
    rw [if_pos hvalue, hadd, ok_bind]

theorem readWords_divider (grammar : Grammar) (g : Given) (rest : List String) :
    readWords grammar g ("--" :: rest) =
      (rest.foldlM (Given.addArgument grammar) g).map (·, none) := by
  have hword : WordKind.ofWord "--" = .divider := by decide
  rw [readWords, hword]

theorem readWords_plain (hword : WordKind.ofWord d = .plain) (hverb : grammar.verb? d = none)
    (rest : List String) :
    readWords grammar g (d :: rest) = (do readWords grammar (← g.addArgument grammar d) rest) := by
  rw [readWords, hword]
  dsimp only
  rw [hverb]

/-- An option that is read stands alone or has the next word as its value. -/
theorem exists_of_readWords_option
    (hword : WordKind.ofWord word ≠ .plain ∧ WordKind.ofWord word ≠ .divider)
    (h : readWords .directoryRun g (word :: rest) = .ok result) :
    (∃ g₁, readSwitch .top g (.ofWord word) = .ok (g₁, none) ∧
        readWords .directoryRun g₁ rest = .ok result) ∨
      ∃ g₁ s value behind g₂, readSwitch .top g (.ofWord word) = .ok (g₁, some s) ∧
        rest = value :: behind ∧ WordKind.ofWord value = .plain ∧
        g₁.addSwitch s value = .ok g₂ ∧ readWords .directoryRun g₂ behind = .ok result := by
  rw [readWords] at h
  split at h
  · next hplain => exact absurd hplain hword.1
  · next hdivider => exact absurd hdivider hword.2
  · rw [← readSwitch_top, bind_eq_ok_iff] at h
    obtain ⟨⟨g₁, waiting⟩, hread, h⟩ := h
    cases waiting with
    | none => exact .inl ⟨g₁, hread, h⟩
    | some s =>
      cases rest with
      | nil => cases h
      | cons value behind =>
        dsimp only at h
        split at h
        · next hvalue =>
          obtain ⟨g₂, hadd, h⟩ := bind_eq_ok_iff.1 h
          exact .inr ⟨g₁, s, value, behind, g₂, hread, rfl, hvalue, hadd, h⟩
        · cases h

/-- Whether words are options with their values, which are taken in one after another. -/
inductive Options : Given → List String → Given → Prop
  | nil (g : Given) : Options g [] g
  | flag {g g₁ g₂ : Given} {word : String} {rest : List String} :
      readSwitch .top g (.ofWord word) = .ok (g₁, none) → Options g₁ rest g₂ →
      Options g (word :: rest) g₂
  | value {g g₁ g₂ g₃ : Given} {word value : String} {s : Switch} {rest : List String} :
      readSwitch .top g (.ofWord word) = .ok (g₁, some s) → WordKind.ofWord value = .plain →
      g₁.addSwitch s value = .ok g₂ → Options g₂ rest g₃ → Options g (word :: value :: rest) g₃

theorem Options.argument (h : Options g front g') : g'.argument = g.argument := by
  induction h with
  | nil g => rfl
  | flag hread _ ih => exact ih.trans (argument_readSwitch hread)
  | value hread _ hadd _ ih =>
    exact ih.trans ((Given.argument_addSwitch hadd).trans (argument_readSwitch hread))

theorem Options.readWords_top (h : Options g front g') (rest : List String) :
    readWords .top g (front ++ rest) = readWords .top g' rest := by
  induction h with
  | nil g => rfl
  | flag hread _ ih => exact (readWords_flag hread _).trans ih
  | value hread hvalue hadd _ ih => exact (readWords_value hread hvalue hadd _).trans ih

/-- What stands behind the options in front of words that are read. -/
inductive Behind (g : Given) (result : Given × Option (Verb × List String)) : List String → Prop
  | nothing : result = (g, none) → Behind g result []
  | divider {g₁ : Given} {rest : List String} :
      rest.foldlM (Given.addArgument .directoryRun) g = .ok g₁ → result = (g₁, none) →
      Behind g result ("--" :: rest)
  | argument {g₁ : Given} {d : String} {rest : List String} :
      WordKind.ofWord d = .plain → g.addArgument .directoryRun d = .ok g₁ →
      readWords .directoryRun g₁ rest = .ok result → Behind g result (d :: rest)

/-- Words that can be read begin with options. -/
theorem exists_options (h : readWords .directoryRun g words = .ok result) :
    ∃ front back g₁, words = front ++ back ∧ Options g front g₁ ∧ Behind g₁ result back := by
  -- on the number of words, since an option with a value takes two of them
  induction hlength : words.length using Nat.strongRecOn generalizing g words with
  | ind length ih =>
    cases words with
    | nil =>
      cases h
      exact ⟨[], [], g, rfl, .nil g, .nothing rfl⟩
    | cons word rest =>
      cases hword : WordKind.ofWord word with
      | plain =>
        rw [readWords_plain hword rfl, bind_eq_ok_iff] at h
        obtain ⟨g₁, hadd, hrest⟩ := h
        exact ⟨[], word :: rest, g, rfl, .nil g, .argument hword hadd hrest⟩
      | divider =>
        obtain rfl := WordKind.eq_of_divider hword
        rw [readWords_divider] at h
        cases hfold : rest.foldlM (Given.addArgument .directoryRun) g with
        | error e =>
          rw [hfold] at h
          cases h
        | ok g₁ =>
          rw [hfold] at h
          cases h
          exact ⟨[], "--" :: rest, g, rfl, .nil g, .divider hfold rfl⟩
      | long | short =>
        have hoption : WordKind.ofWord word ≠ .plain ∧ WordKind.ofWord word ≠ .divider := by
          simp [hword]
        rcases exists_of_readWords_option hoption h with
          ⟨g₁, hread, hrest⟩ | ⟨g₁, s, value, behind, g₂, hread, rfl, hvalue, hadd, hrest⟩
        · obtain ⟨front, back, g₂, rfl, hoptions, hbehind⟩ :=
            ih rest.length (by rw [← hlength, List.length_cons]; omega) hrest rfl
          exact ⟨word :: front, back, g₂, rfl, .flag hread hoptions, hbehind⟩
        · obtain ⟨front, back, g₃, rfl, hoptions, hbehind⟩ :=
            ih behind.length (by rw [← hlength, List.length_cons, List.length_cons]; omega) hrest rfl
          exact ⟨word :: value :: front, back, g₃, rfl, .value hread hvalue hadd hoptions, hbehind⟩

/-- Once an argument is given, no other word can be taken for a command. -/
theorem readWords_top_of_argument (hargument : g.argument = some d)
    (h : readWords .directoryRun g words = .ok result) :
    readWords .top g words = .ok result ∧ result.2 = none ∧ result.1.argument = some d := by
  obtain ⟨front, back, g₁, rfl, hoptions, hbehind⟩ := exists_options h
  have hkept : g₁.argument = some d := hoptions.argument.trans hargument
  rw [hoptions.readWords_top]
  cases hbehind with
  | nothing hresult =>
    subst hresult
    exact ⟨rfl, rfl, hkept⟩
  | @divider g₂ rest hfold hresult =>
    subst hresult
    cases rest with
    | nil =>
      cases hfold
      exact ⟨readWords_divider .top g₁ [], rfl, hkept⟩
    | cons word rest =>
      obtain ⟨g₃, hadd, -⟩ := bind_eq_ok_iff.1 hfold
      cases hkept.symm.trans (Given.addArgument_eq_ok hadd).1
  | argument _ hadd _ => cases hkept.symm.trans (Given.addArgument_eq_ok hadd).1

theorem Switch.switchOfLong?_long (s : Switch) :
    WordKind.ofWord ("--" ++ s.long) = .long s.long.toList ∧ '=' ∉ s.long.toList ∧
      Grammar.top.switchOfLong? (String.ofList s.long.toList) = some s := by
  cases s <;> decide

theorem Switch.switchOfShort?_short {c : Char} (h : s.short? = some c) :
    c ≠ '-' ∧ Grammar.top.switchOfShort? c = some s := by
  cases s <;> cases h <;> decide

/-- A word that is looked at as the name of an option with a value is read as that. -/
theorem readSwitch_of_awaitsValue (h : awaitsValue word = true) (g : Given) :
    ∃ s, readSwitch .top g (.ofWord word) = .ok (g, some s) := by
  obtain ⟨s, -, hs⟩ := List.any_eq_true.1 h
  obtain ⟨htakes, hname⟩ := Bool.and_eq_true_iff.1 hs
  refine ⟨s, ?_⟩
  rcases Bool.or_eq_true_iff.1 hname with heq | heq
  · obtain ⟨hkind, hequals, hlong⟩ := s.switchOfLong?_long
    rw [eq_of_beq heq, hkind]
    exact Given.readLong_of_name g hequals hlong htakes
  · obtain ⟨c, hc, hword⟩ := Option.any_eq_true _ _ |>.1 heq
    obtain ⟨hletter, hfound⟩ := Switch.switchOfShort?_short hc
    rw [WordKind.ofWord_of_letter hletter (eq_of_beq hword)]
    simp [readSwitch, Given.readShort, hfound, htakes]

/-- Unless it is an open bundle, a word whose value is the next one is looked at as such. -/
theorem awaitsValue_of_readSwitch (h : readSwitch .top g (.ofWord word) = .ok (g', some s))
    (hbundle : ¬IsOpenBundle word) : awaitsValue word = true := by
  refine List.any_eq_true.2 ⟨s, ?_⟩
  obtain ⟨body, hword, hread⟩ | ⟨names, hword, hread⟩ := readSwitch_eq_ok h
  · obtain ⟨s', ⟨hwaiting, -, htakes, hname⟩ | ⟨hwaiting, -⟩⟩ := Given.readLong_eq_ok hread
    · cases hwaiting
      obtain ⟨hmem, hlong⟩ := Grammar.of_switchOfLong? hname
      have hsame : word = "--" ++ s.long := by
        apply String.toList_injective
        rw [WordKind.toList_of_long hword, hlong]
        simp
      exact ⟨hmem, by simp [htakes, ← hsame]⟩
    · cases hwaiting
  · obtain ⟨flags, name, hnames, hflags, hname, htakes⟩ := (Given.readShort_eq_ok hread).2 s rfl
    have htext := WordKind.toList_of_short hword
    have hsingle : flags = [] := by
      by_contra hne
      exact hbundle ⟨flags, name, hne, by rw [htext, hnames], hflags, s, hname, htakes⟩
    obtain ⟨hmem, hshort⟩ := Grammar.of_switchOfShort? hname
    exact ⟨hmem, by simp [htakes, hshort, htext, hnames, hsingle]⟩

/-- Options without open bundles are passed over in the search for the first argument. -/
theorem Options.firstPlain? (h : Options g front g') (hbundle : ∀ word ∈ front, ¬IsOpenBundle word)
    (rest : List String) : firstPlain? (front ++ rest) = Command.firstPlain? rest := by
  induction h with
  | nil g => rfl
  | @flag g g₁ g₂ word words hread _ ih =>
    obtain ⟨hword, hhyphen⟩ := ne_divider_of_readSwitch hread
    have hnone : awaitsValue word = false := by
      by_contra hawaits
      obtain ⟨s, hvalue⟩ := readSwitch_of_awaitsValue (Bool.not_eq_false _ ▸ hawaits) g
      cases hread.symm.trans hvalue
    rw [List.cons_append, Command.firstPlain?.eq_def]
    dsimp only
    rw [if_neg hword, if_neg (by simp [hnone]), if_pos hhyphen]
    exact ih fun w hw => hbundle w (List.mem_cons_of_mem _ hw)
  | @value g g₁ g₂ g₃ word value s words hread _ _ _ ih =>
    obtain ⟨hword, -⟩ := ne_divider_of_readSwitch hread
    have hawaits := awaitsValue_of_readSwitch hread (hbundle word List.mem_cons_self)
    rw [List.cons_append, List.cons_append, Command.firstPlain?, if_neg hword, if_pos hawaits]
    exact ih fun w hw => hbundle w (List.mem_cons_of_mem _ (List.mem_cons_of_mem _ hw))

/-- The name of a command is found in the search for the first argument. -/
theorem firstPlain?_of_verb {verb : Verb} (h : Grammar.top.verb? d = some verb)
    (rest : List String) :
    firstPlain? (d :: rest) = some d ∧ (d ≠ Verb.help.name → d ∈ commandNames) := by
  have hverbs : ∀ verb ∈ Grammar.top.verbs, verb.name ≠ "--" ∧ awaitsValue verb.name = false ∧
      verb.name.toList.head? ≠ some '-' ∧
        (verb.name ≠ Verb.help.name → verb.name ∈ commandNames) := by decide
  unfold Grammar.verb? at h
  have hname := List.find?_some h
  obtain ⟨hdivider, hawaits, hhyphen, hcommand⟩ := hverbs verb (List.mem_of_find?_eq_some h)
  rw [eq_of_beq hname] at hdivider hawaits hhyphen hcommand
  refine ⟨?_, hcommand⟩
  rw [firstPlain?.eq_def]
  dsimp only
  rw [if_neg hdivider, if_neg (by simp [hawaits]), if_neg hhyphen]

theorem readWords_top_divider (g : Given) (rest : List String) :
    readWords .top g ("--" :: rest) = readWords .directoryRun g ("--" :: rest) := by
  rw [readWords_divider, readWords_divider]
  rfl

theorem readWords_top_plain (hword : WordKind.ofWord d = .plain)
    (hverb : Grammar.top.verb? d = none) (hadd : g.addArgument .directoryRun d = .ok g₁)
    (h : readWords .directoryRun g₁ rest = .ok result) :
    readWords .top g (d :: rest) = .ok result := by
  have hadd' : g.addArgument .top d = .ok g₁ := hadd
  rw [readWords_plain hword hverb, hadd', ok_bind]
  exact (readWords_top_of_argument (Given.addArgument_eq_ok hadd).2 h).1

theorem ofWords_of_readWords_top (isDirectory : String → Bool)
    (htop : readWords .top {} words = .ok (g, none))
    (h : readWords .directoryRun {} words = .ok (g, none)) :
    Invocation.ofWords isDirectory words = .ok ⟨.fix g.fixRequest, configOf [g]⟩ := by
  have hcommand : readInvocation .top words = .ok ⟨.fix g.fixRequest, configOf [g]⟩ := by
    rw [readInvocation, htop]
    rfl
  have hrun : readInvocation .directoryRun words = .ok ⟨.fix g.fixRequest, configOf [g]⟩ := by
    rw [readInvocation, h]
    rfl
  unfold Invocation.ofWords
  simp only [hcommand, hrun]
  split
  · rfl
  · split <;> rfl

end Reading

/--
A directory is run over though it is called as a command is, unless it is called `help` or follows
an open bundle.
-/
theorem directory_comes_first {isDirectory : String → Bool} {words : List String}
    {request : FixRequest} {config : Option Path} {d : String}
    (hvalid : readInvocation .directoryRun words = .ok ⟨.fix request, config⟩)
    (hargument : request.directory = some ⟨d⟩) (hdirectory : isDirectory d = true) :
    ∃ front back g, Options {} front g ∧
      (words = front ++ "--" :: d :: back ∧
          Invocation.ofWords isDirectory words = .ok ⟨.fix request, config⟩ ∨
        words = front ++ d :: back ∧
          (Grammar.top.verb? d = none ∨
              d ≠ Verb.help.name ∧ (∀ word ∈ front, ¬IsOpenBundle word) →
            Invocation.ofWords isDirectory words = .ok ⟨.fix request, config⟩)) := by
  obtain ⟨⟨g', named⟩, hread, hrun⟩ := bind_eq_ok_iff.1 hvalid
  obtain ⟨front, back, g, rfl, hoptions, hbehind⟩ := exists_options hread
  have hnone : g.argument = none := hoptions.argument
  cases hbehind with
  | nothing hresult =>
    cases hresult
    cases hrun
    cases hnone.symm.trans (Given.argument_of_fixRequest hargument)
  | divider hfold hresult =>
    cases hresult
    cases hrun
    obtain rfl := Given.eq_singleton_of_foldlM hfold hnone (Given.argument_of_fixRequest hargument)
    refine ⟨front, [], g, hoptions, .inl ⟨rfl, ofWords_of_readWords_top isDirectory ?_ hread⟩⟩
    rw [hoptions.readWords_top, readWords_top_divider, readWords_divider, hfold]
    rfl
  | @argument g₁ d' rest hword hadd hrest =>
    obtain ⟨-, hlast, hkept⟩ := readWords_top_of_argument (Given.addArgument_eq_ok hadd).2 hrest
    cases hlast
    cases hrun
    cases hkept.symm.trans (Given.argument_of_fixRequest hargument)
    refine ⟨front, rest, g, hoptions, .inr ⟨rfl, fun hseen => ?_⟩⟩
    cases hverb : Grammar.top.verb? d with
    | none =>
      refine ofWords_of_readWords_top isDirectory ?_ hread
      rw [hoptions.readWords_top, readWords_top_plain hword hverb hadd hrest]
    | some verb =>
      -- the search comes upon the directory itself, which is looked for and is there
      obtain ⟨hhelp, hbundle⟩ := hseen.resolve_left (by rw [hverb]; exact Option.some_ne_none _)
      obtain ⟨hfirst, hcommand⟩ := firstPlain?_of_verb hverb rest
      have hfound : firstPlain? (front ++ d :: rest) = some d :=
        (hoptions.firstPlain? hbundle _).trans hfirst
      unfold Invocation.ofWords
      simp only [hfound, Option.filter_some, hcommand hhelp, decide_true, if_true, hdirectory]
      exact hvalid

def checkGiven : Given where
  switches := [(.verbose, ""), (.config, "fixer.yaml")]
  argument := some "check"

theorem not_isOpenBundle_of_length {word : String} (h : word.toList.length ≤ 2) :
    ¬IsOpenBundle word := by
  rintro ⟨flags, name, hflags, hword, -, -⟩
  have hlength := List.length_pos_iff.2 hflags
  rw [hword, List.length_cons, List.length_append, List.length_singleton] at h
  omega

theorem not_isOpenBundle_of_head {word : String} (h : word.toList.head? ≠ some '-') :
    ¬IsOpenBundle word := by
  rintro ⟨flags, name, -, hword, -, -⟩
  rw [hword] at h
  exact h rfl

theorem directory_comes_first_check :
    readInvocation .directoryRun ["-v", "-c", "fixer.yaml", "check"] =
        .ok ⟨.fix checkGiven.fixRequest, some ⟨"fixer.yaml"⟩⟩ ∧
      Invocation.ofWords (· == "check") ["-v", "-c", "fixer.yaml", "check"] =
        .ok ⟨.fix checkGiven.fixRequest, some ⟨"fixer.yaml"⟩⟩ := by
  have hread : readWords .directoryRun {} ["-v", "-c", "fixer.yaml", "check"] =
      .ok (checkGiven, none) := by
    rw [readWords_flag rfl, readWords_value rfl (by decide) rfl]
    rfl
  have hvalid : readInvocation .directoryRun ["-v", "-c", "fixer.yaml", "check"] =
      .ok ⟨.fix checkGiven.fixRequest, some ⟨"fixer.yaml"⟩⟩ := by
    rw [readInvocation, hread]
    rfl
  obtain ⟨front, back, g, -, ⟨-, hrun⟩ | ⟨hwords, hrun⟩⟩ :=
    @directory_comes_first (· == "check") _ _ _ "check" hvalid rfl rfl
  · exact ⟨hvalid, hrun⟩
  · refine ⟨hvalid, hrun (.inr ⟨by decide, fun word hword => ?_⟩)⟩
    have hmem : word ∈ ["-v", "-c", "fixer.yaml", "check"] := by
      rw [hwords]
      exact List.mem_append_left _ hword
    simp only [List.mem_cons, List.not_mem_nil, or_false] at hmem
    rcases hmem with rfl | rfl | rfl | rfl
    · exact not_isOpenBundle_of_length (by decide)
    · exact not_isOpenBundle_of_length (by decide)
    · exact not_isOpenBundle_of_head (by decide)
    · exact not_isOpenBundle_of_head (by decide)

/--
The same options in one word hide the directory, so the command is read, and misses its argument. A
directory called `help` is not looked for.
-/
theorem directory_hidden :
    readInvocation .directoryRun ["-vc", "fixer.yaml", "check"] =
        .ok ⟨.fix checkGiven.fixRequest, some ⟨"fixer.yaml"⟩⟩ ∧
      Invocation.ofWords (· == "check") ["-vc", "fixer.yaml", "check"] = .error .misuse ∧
      readInvocation .directoryRun ["help"] =
        .ok ⟨.fix (Given.fixRequest { argument := some "help" }), none⟩ ∧
      Invocation.ofWords (· == "help") ["help"] = .error .help := by
  have hread : readWords .directoryRun {} ["-vc", "fixer.yaml", "check"] =
      .ok (checkGiven, none) := by
    rw [readWords_value rfl (by decide) rfl]
    rfl
  have hcommand : readInvocation .top ["-vc", "fixer.yaml", "check"] = .error .misuse := by
    rw [readInvocation, readWords_value rfl (by decide) rfl]
    rfl
  have hfirst : firstPlain? ["-vc", "fixer.yaml", "check"] = some "fixer.yaml" := by decide
  refine ⟨?_, ?_, rfl, rfl⟩
  · rw [readInvocation, hread]
    rfl
  · unfold Invocation.ofWords
    rw [hfirst]
    exact hcommand

end ExplicitApi.Command
