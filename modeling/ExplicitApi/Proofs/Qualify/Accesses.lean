import ExplicitApi.Proofs.Qualify.Boundaries

/-!
The passes over a text that is read by byte offsets. Main statement: it is told what they access;
every access ends between two characters and those of each use follow one another down the text, so
that no pass fails, and the passes give the same as they do by characters.
-/
namespace ExplicitApi.Qualify

/-- Whether an access goes down the text from one place between characters to another. -/
structure Access.IsSound (text : String) (a : Access) : Prop where
  start : String.Pos.Raw.IsValid text ⟨a.start⟩
  stop : String.Pos.Raw.IsValid text ⟨a.stop⟩
  start_le_stop : a.start ≤ a.stop

/-- Whether accesses of the same use follow one another down the text. -/
def InOrder (made : List Access) : Prop :=
  made.Pairwise fun a b => a.use = b.use → a.stop ≤ b.start

def seenAt (text : String) (place : Place) : Bool :=
  (windowAt? text place.start).any fun w => holdsQualifier w.toList

/-- What is read at a declaration line, whether or not a qualifier is seen in front of it. -/
def Place.reads (place : Place) (copied : Nat) : List Access :=
  [⟨.part, place.start, place.keyword⟩, ⟨.part, place.keyword, place.gap⟩,
    ⟨.part, place.gap, place.stop⟩, ⟨.between, copied, place.start⟩,
    ⟨.lookback, place.start, place.start⟩]

/-- What is read of a text copied and counted up to some offsets, by its declaration lines. -/
def accessesFrom (text : String) (copied counted : Nat) : List Place → List Access
  | [] => [⟨.between, copied, text.utf8ByteSize⟩]
  | place :: rest =>
    place.reads copied ++
      if seenAt text place then accessesFrom text place.stop counted rest
      else ⟨.count, counted, place.keyword⟩ :: accessesFrom text place.stop place.keyword rest

def accesses (kind : Declaration) (text : String) : List Access :=
  accessesFrom text 0 0 (places kind text)

section Reading

variable {text : String} {α β : Type} {first mid last : Use → Nat}

/-- Whether the accesses of each use lead down a text from one offset to another. -/
structure Leads (text : String) (first last : Use → Nat) (made : List Access) : Prop where
  sound : ∀ a ∈ made, a.IsSound text
  inOrder : InOrder made
  first_le : ∀ a ∈ made, first a.use ≤ a.start
  le_last : ∀ a ∈ made, a.stop ≤ last a.use
  le : first ≤ last

theorem Leads.nil (h : first ≤ last) : Leads text first last [] where
  sound := nofun
  inOrder := .nil
  first_le := nofun
  le_last := nofun
  le := h

theorem Leads.append {made more : List Access} (h : Leads text first mid made)
    (h' : Leads text mid last more) : Leads text first last (made ++ more) where
  sound := List.forall_mem_append.2 ⟨h.sound, h'.sound⟩
  inOrder := by
    refine List.pairwise_append.2 ⟨h.inOrder, h'.inOrder, fun a ha b hb huse => ?_⟩
    have hlast := h.le_last a ha
    have hfirst := h'.first_le b hb
    rw [huse] at hlast
    exact hlast.trans hfirst
  first_le := List.forall_mem_append.2 ⟨h.first_le, fun a ha => (h.le _).trans (h'.first_le a ha)⟩
  le_last := List.forall_mem_append.2 ⟨fun a ha => (h.le_last a ha).trans (h'.le _), h'.le_last⟩
  le := h.le.trans h'.le

theorem Leads.singleton {a : Access} (h : a.IsSound text) (hfirst : first a.use ≤ a.start) :
    Leads text first (Function.update first a.use a.stop) [a] where
  sound := List.forall_mem_singleton.2 h
  inOrder := List.pairwise_singleton _ _
  first_le := List.forall_mem_singleton.2 hfirst
  le_last := List.forall_mem_singleton.2 (by rw [Function.update_self])
  le := le_update_iff.2 ⟨hfirst.trans h.start_le_stop, fun _ _ => le_rfl⟩

/-- Whether work ends with a result, by accesses that lead down a text between given offsets. -/
structure Ends (text : String) (first last : Use → Nat) (work : Reading α) (result : α)
    (more : List Access) : Prop where
  run : ∀ made, work.run made = some (result, made ++ more)
  leads : Leads text first last more

theorem Ends.pure (h : first ≤ last) (result : α) :
    Ends text first last (Pure.pure result) result [] :=
  ⟨fun made => congrArg (fun l => some (result, l)) (List.append_nil made).symm, .nil h⟩

theorem Ends.bind {work : Reading α} {next : α → Reading β} {result : α} {result' : β}
    {more more' : List Access} (h : Ends text first mid work result more)
    (h' : Ends text mid last (next result) result' more') :
    Ends text first last (work >>= next) result' (more ++ more') := by
  refine ⟨fun made => ?_, h.leads.append h'.leads⟩
  rw [StateT.run_bind, h.run, Option.bind_eq_bind, Option.bind_some, h'.run, List.append_assoc]

/-- Work that reads first and then goes on. -/
theorem Ends.cons {use : Use} {start stop : Nat} {found : List Char} {next : List Char → Reading β}
    {result : β} {more : List Access}
    (h : Ends text first mid (read text use start stop) found [⟨use, start, stop⟩])
    (h' : Ends text mid last (next found) result more) :
    Ends text first last (read text use start stop >>= next) result (⟨use, start, stop⟩ :: more) :=
  h.bind h'

theorem Ends.read {use : Use} {start stop : Nat} {found : List Char}
    (h : Access.IsSound text ⟨use, start, stop⟩) (hfirst : first use ≤ start)
    (hfound : Access.read? text ⟨use, start, stop⟩ = some found) :
    Ends text first (Function.update first use stop) (read text use start stop) found
      [⟨use, start, stop⟩] := by
  refine ⟨fun made => ?_, .singleton h hfirst⟩
  simp only [StateT.run, Qualify.read, hfound, Option.map_some]

end Reading

section Slices

variable {text : String} {front found back : List Char}

theorem takeBytes_append (front back : List Char) :
    takeBytes (front ++ back) (byteSize front) = some front :=
  takeBytes_eq_some_iff.2 ⟨back, rfl, rfl⟩

/-- There is something between two offsets when they are in order and between characters. -/
theorem slice?_eq_some_iff {start stop : Nat} :
    slice? text start stop = some found ↔
      ∃ front back, front ++ found ++ back = text.toList ∧ byteSize front = start ∧
        byteSize (front ++ found) = stop := by
  simp only [slice?, Option.bind_eq_bind, Option.bind_eq_some_iff, Option.pure_def,
    Option.some.injEq, takeBytes_eq_some_iff]
  constructor
  · rintro ⟨_, ⟨back, htext, hstop⟩, front, ⟨found, rfl, hstart⟩, rfl⟩
    rw [List.drop_left]
    exact ⟨front, back, htext, hstart, hstop⟩
  · rintro ⟨front, back, htext, hstart, hstop⟩
    exact ⟨_, ⟨back, htext, hstop⟩, front, ⟨found, rfl, hstart⟩, List.drop_left⟩

theorem isSound_append (use : Use) (h : front ++ found ++ back = text.toList) :
    Access.IsSound text ⟨use, byteSize front, byteSize (front ++ found)⟩ where
  start := isValid_iff.2 ⟨front, found ++ back, by rw [← h, List.append_assoc], rfl⟩
  stop := isValid_iff.2 ⟨front ++ found, back, h, rfl⟩
  start_le_stop := by simp [byteSize_append]

theorem ends_slice {first : Use → Nat} {use : Use} {start stop : Nat} (huse : use ≠ .lookback)
    (h : front ++ found ++ back = text.toList) (hstart : byteSize front = start)
    (hstop : byteSize (front ++ found) = stop) (hfirst : first use ≤ start) :
    Ends text first (Function.update first use stop) (read text use start stop) found
      [⟨use, start, stop⟩] := by
  have hslice := slice?_eq_some_iff.2 ⟨front, back, h, hstart, hstop⟩
  subst hstart hstop
  refine .read (isSound_append use h) hfirst ?_
  cases use with
  | lookback => exact absurd rfl huse
  | part | between | count => exact hslice

theorem windowAt?_append (h : front ++ back = text.toList) :
    windowAt? text (byteSize front) = some (String.ofList (window front.reverse)) := by
  rw [windowAt?, ← h, takeBytes_append]
  rfl

theorem seenAt_eq {place : Place} (h : front ++ back = text.toList)
    (hplace : place.start = byteSize front) :
    seenAt text place = holdsQualifier (window front.reverse) := by
  rw [seenAt, hplace, windowAt?_append h, Option.any_some, String.toList_ofList]

theorem ends_lookback {first : Use → Nat} (h : front ++ back = text.toList)
    (hfirst : first .lookback ≤ byteSize front) :
    Ends text first (Function.update first .lookback (byteSize front))
      (read text .lookback (byteSize front) (byteSize front)) (window front.reverse)
      [⟨.lookback, byteSize front, byteSize front⟩] := by
  have hvalid := isValid_iff.2 ⟨front, back, h, rfl⟩
  refine .read ⟨hvalid, hvalid, le_rfl⟩ hfirst ?_
  rw [Access.read?, windowAt?_append h, Option.map_some, String.toList_ofList]

end Slices

section Line

/-- The first line of a text has at most one line feed, which ends it. -/
theorem splitLine_fst_eq (s : List Char) :
    (Text.splitLine s).1 = (Text.splitLine s).1.takeWhile (· != '\n') ∨
      (Text.splitLine s).1 = (Text.splitLine s).1.takeWhile (· != '\n') ++ ['\n'] := by
  induction s with
  | nil => exact .inl rfl
  | cons c s ih =>
    by_cases hc : c = '\n'
    · simp [Text.splitLine, hc]
    · simpa [Text.splitLine, hc] using ih

variable {d : DeclarationLine}

theorem rest_eq_of_splitDeclaration {kind : Declaration} {s following : List Char}
    (h : splitDeclaration kind s = some (d, following)) :
    d.rest = d.shown.rest ∨ d.rest = d.shown.rest ++ ['\n'] := by
  unfold splitDeclaration at h
  split at h
  · next keyword tail _ =>
    split at h
    · cases h
      exact splitLine_fst_eq tail
    · cases h
  · cases h

theorem name_shown {kind : Declaration} {s following : List Char}
    (h : splitDeclaration kind s = some (d, following)) : d.shown.name = d.name := by
  rw [DeclarationLine.name, DeclarationLine.name]
  rcases rest_eq_of_splitDeclaration h with hrest | hrest
  · rw [← hrest]
  · have hblank : ['\n'].dropWhile Text.isBlank = [] := rfl
    have hend : ['\n'].takeWhile (fun c => Text.isAlphanumeric c || c == '_') = [] := rfl
    rw [hrest, Text.trimStart, Text.trimStart, List.dropWhile_append, hblank]
    split_ifs with hempty
    · rw [List.isEmpty_iff.1 hempty]
    · rw [List.takeWhile_append, hend]
      split_ifs with hall
      · rw [List.append_nil]
        exact (List.takeWhile_prefix _).eq_of_length hall
      · rfl

end Line

section Run

variable {kind : Declaration} {text : String} {front output pending passed : List Char}
  {line : Nat} {p : Progress} {d : DeclarationLine}

def Progress.reached (p : Progress) : Use → Nat
  | .count => p.counted
  | .part | .between | .lookback => p.copied

/-- Whether a pass has what belongs behind `front`, but for what it has yet to copy or count. -/
structure Progress.At (p : Progress) (front : List Char) (line : Nat)
    (output pending passed : List Char) : Prop where
  copied : ∃ copied, copied ++ pending = front ∧ byteSize copied = p.copied
  output : p.output ++ pending = output
  counted : ∃ counted, counted ++ passed = front ∧ byteSize counted = p.counted
  line : p.line + .ofNat (Text.lineFeeds passed) = .ofNat line

theorem ofNat_lineFeeds_append (s t : List Char) :
    UInt32.ofNat (Text.lineFeeds (s ++ t)) =
      .ofNat (Text.lineFeeds s) + .ofNat (Text.lineFeeds t) := by
  rw [lineFeeds_append, UInt32.ofNat_add]

namespace Progress.At

theorem start : At {} [] 1 [] [] [] where
  copied := ⟨[], rfl, rfl⟩
  output := rfl
  counted := ⟨[], rfl, rfl⟩
  line := rfl

theorem line_append (h : p.At front line output pending passed) (s : List Char) :
    p.line + .ofNat (Text.lineFeeds (passed ++ s)) = .ofNat (line + Text.lineFeeds s) := by
  rw [ofNat_lineFeeds_append, ← UInt32.add_assoc, h.line, UInt32.ofNat_add]

theorem skip (h : p.At front line output pending passed) (s : List Char) :
    p.At (front ++ s) (line + Text.lineFeeds s) (output ++ s) (pending ++ s) (passed ++ s) where
  copied := by
    obtain ⟨copied, rfl, hsize⟩ := h.copied
    exact ⟨copied, (List.append_assoc ..).symm, hsize⟩
  output := by rw [← List.append_assoc, h.output]
  counted := by
    obtain ⟨counted, rfl, hsize⟩ := h.counted
    exact ⟨counted, (List.append_assoc ..).symm, hsize⟩
  line := h.line_append s

variable {feed : List Char}

theorem keep (h : p.At front line output pending passed) (hfeed : d.shown.text ++ feed = d.text) :
    (p.keep pending d.shown (d.shown.placeBehind front)).At (front ++ d.text)
      (line + Text.lineFeeds d.text) (output ++ d.text) feed (passed ++ d.text) where
  copied := ⟨front ++ d.shown.text, by rw [List.append_assoc, hfeed], rfl⟩
  output := by rw [Progress.keep, h.output, List.append_assoc, hfeed]
  counted := (h.skip d.text).counted
  line := h.line_append d.text

theorem insert (h : p.At front line output pending passed)
    (hfeed : d.shown.text ++ feed = d.text) :
    (p.insert kind pending d.shown (passed ++ d.indentation) (d.shown.placeBehind front)).At
      (front ++ d.text) (line + Text.lineFeeds d.text)
      (output ++ (d.indentation ++ inserted ++ d.keyword ++ d.rest)) feed
      (d.keyword ++ d.rest) where
  copied := ⟨front ++ d.shown.text, by rw [List.append_assoc, hfeed], rfl⟩
  output := by
    have hrest : d.shown.rest ++ feed = d.rest := by
      simpa only [DeclarationLine.text, DeclarationLine.shown, List.append_assoc,
        List.append_cancel_left_eq] using hfeed
    rw [Progress.insert, h.output, ← hrest]
    simp only [List.append_assoc]
    rfl
  counted := ⟨front ++ d.indentation, by simp only [DeclarationLine.text, List.append_assoc], rfl⟩
  line := by
    have htext : d.text = d.indentation ++ (d.keyword ++ d.rest) := List.append_assoc ..
    rw [Progress.insert, h.line_append, htext, lineFeeds_append d.indentation, ← Nat.add_assoc,
      UInt32.ofNat_add _ (Text.lineFeeds (d.keyword ++ d.rest))]

/-- What becomes of a pass at a declaration line that ends in front of `back`. -/
theorem ends_step {back : List Char} (h : p.At front line output pending passed)
    (htext : front ++ d.text ++ back = text.toList) :
    let place := d.placeBehind front
    let p' :=
      if holdsQualifier (window front.reverse) then p.keep pending d place
      else p.insert kind pending d (passed ++ d.indentation) place
    ∃ more, Ends text p.reached p'.reached (p.step kind text place) p' more ∧
      ∀ rest, accessesFrom text p.copied p.counted (place :: rest) =
        more ++ accessesFrom text p'.copied p'.counted rest := by
  intro place p'
  obtain ⟨copied, hcopied, hcopied'⟩ := h.copied
  obtain ⟨counted, hcounted, hcounted'⟩ := h.counted
  have hfront : p.copied ≤ place.start := by
    simp only [place, DeclarationLine.placeBehind, ← hcopied, byteSize_append]
    omega
  have hstop : place.start ≤ place.stop := by
    simp only [place, DeclarationLine.placeBehind, byteSize_append]
    omega
  have hline : front ++ d.indentation ++ d.keyword ++ d.rest = front ++ d.text := by
    simp only [DeclarationLine.text, List.append_assoc]
  have hindentation : front ++ d.indentation ++ (d.keyword ++ d.rest ++ back) = text.toList := by
    rw [← htext, ← hline]
    simp only [List.append_assoc]
  have hkeyword : front ++ d.indentation ++ d.keyword ++ (d.rest ++ back) = text.toList := by
    rw [← List.append_assoc, hline, htext]
  have hrest : front ++ d.indentation ++ d.keyword ++ d.rest ++ back = text.toList := by
    rw [hline, htext]
  have hwindow : front ++ (d.text ++ back) = text.toList := by
    rw [← List.append_assoc, htext]
  have hbetween : copied ++ pending ++ (d.text ++ back) = text.toList := by
    rw [hcopied, hwindow]
  have hpassed' : counted ++ (passed ++ d.indentation) = front ++ d.indentation := by
    rw [← List.append_assoc, hcounted]
  have hpassed : counted ++ (passed ++ d.indentation) ++ (d.keyword ++ d.rest ++ back) =
      text.toList := by
    rw [hpassed', hindentation]
  have hseen : seenAt text place = holdsQualifier (window front.reverse) := seenAt_eq hwindow rfl
  let down := Function.update (Function.update (Function.update (Function.update
    (Function.update p.reached .part place.keyword) .part place.gap) .part place.stop)
      .between place.start) .lookback place.start
  have hend : Ends text down p'.reached
      (if holdsQualifier (window front.reverse) then Pure.pure (p.keep pending d place)
      else read text .count p.counted place.keyword >>= fun passed =>
        Pure.pure (p.insert kind pending d passed place)) p'
      (if seenAt text place then [] else [⟨.count, p.counted, place.keyword⟩]) := by
    rw [hseen]
    by_cases hq : holdsQualifier (window front.reverse)
    · simp only [p', hq, if_true]
      refine .pure (fun use => ?_) _
      cases use with
      | part | count => exact le_rfl
      | between | lookback => exact hstop
    · simp only [p', hq, Bool.false_eq_true, if_false]
      refine .cons (ends_slice (by decide) hpassed hcounted' (by rw [hpassed']; rfl) le_rfl)
        (.pure (fun use => ?_) _)
      cases use with
      | part | count => exact le_rfl
      | between | lookback => exact hstop
  refine ⟨place.reads p.copied ++
    if seenAt text place then [] else [⟨.count, p.counted, place.keyword⟩], ?_, fun rest => ?_⟩
  -- every declaration line is read alike up to its window
  · exact .cons (ends_slice (by decide) hindentation rfl rfl hfront)
      (.cons (ends_slice (by decide) hkeyword rfl rfl (Function.update_self ..).le)
        (.cons (ends_slice (by decide) hrest rfl (by rw [hline]; rfl) (Function.update_self ..).le)
          (.cons (ends_slice (by decide) hbetween hcopied' (by rw [hcopied]; rfl) le_rfl)
            (.cons (ends_lookback hwindow hfront) hend))))
  · rw [accessesFrom, hseen, List.append_assoc]
    by_cases hq : holdsQualifier (window front.reverse)
    · simp only [p', hq, if_true]
      rfl
    · simp only [p', hq, Bool.false_eq_true, if_false]
      rfl

end Progress.At

/-- A declaration line is copied with or without a qualifier, and then the pass is behind it. -/
theorem exists_ends_step {before s following : List Char}
    (hat : p.At before.reverse line output pending passed)
    (htext : before.reverse ++ s = text.toList)
    (hsplit : splitDeclaration kind s = some (d, following)) :
    let segment := Segment.declaration before (line + Text.lineFeeds d.indentation) d
    ∃ p', (∃ more, Ends text p.reached p'.reached
          (p.step kind text (d.shown.placeBehind before.reverse)) p' more ∧
        ∀ rest, accessesFrom text p.copied p.counted (d.shown.placeBehind before.reverse :: rest) =
          more ++ accessesFrom text p'.copied p'.counted rest) ∧
      (∃ pending passed, p'.At (before.reverse ++ d.text) (line + Text.lineFeeds d.text)
        (output ++ segment.qualified) pending passed) ∧
      p'.insertions = p.insertions ++ (segment.insertion? kind).toList := by
  intro segment
  obtain ⟨feed, hfeed⟩ : ∃ feed, d.shown.text ++ feed = d.text := by
    refine ⟨d.rest.dropWhile (· != '\n'), ?_⟩
    rw [DeclarationLine.text, List.append_assoc]
    exact congrArg (d.indentation ++ d.keyword ++ ·) List.takeWhile_append_dropWhile
  have htext' : before.reverse ++ d.shown.text ++ (feed ++ following) = text.toList := by
    rw [← htext, ← splitDeclaration_append hsplit, ← hfeed]
    simp only [List.append_assoc]
  have hstep := @Progress.At.ends_step kind text _ _ _ _ _ _ _ _ hat htext'
  rw [List.reverse_reverse] at hstep
  simp only [segment, Segment.qualified, Segment.insertion?]
  by_cases hq : holdsQualifier (window before)
  · simp only [hq, if_true] at hstep ⊢
    exact ⟨_, hstep, ⟨_, _, hat.keep hfeed⟩, (List.append_nil _).symm⟩
  · simp only [hq, Bool.false_eq_true, if_false] at hstep ⊢
    refine ⟨_, hstep, ⟨_, _, hat.insert hfeed⟩, ?_⟩
    have hnumber := hat.line_append d.shown.indentation
    rw [Progress.insert, hnumber, name_shown hsplit]
    rfl

def Progress.finish (text : String) (p : Progress) : Reading (List Char × List Insertion) := do
  let rest ← read text .between p.copied text.utf8ByteSize
  return (p.output ++ rest, p.insertions)

theorem Progress.At.ends_finish (h : p.At text.toList line output pending passed) :
    ∃ last, Ends text p.reached last (p.finish text) (output, p.insertions)
      (accessesFrom text p.copied p.counted []) := by
  obtain ⟨copied, hcopied, hsize⟩ := h.copied
  have hrest := @ends_slice text copied pending [] p.reached .between _ _ (by decide)
    (by rw [List.append_nil, hcopied]) hsize (by rw [hcopied, byteSize_toList]) le_rfl
  rw [← h.output]
  exact ⟨_, .cons hrest (.pure le_rfl _)⟩

theorem filterMap_cons_eq {α β : Type} (f : α → Option β) (a : α) (s : List α) :
    (a :: s).filterMap f = (f a).toList ++ s.filterMap f := by
  rw [List.filterMap_cons]
  cases f a <;> rfl

/--
From each place on, given the text before it nearest character first, a pass stays where it ought to
be.
-/
theorem exists_ends_steps {before : List Char} (s : List Char)
    (hat : p.At before.reverse line output pending passed)
    (htext : before.reverse ++ s = text.toList) :
    ∃ last, Ends text p.reached last
      (((segmentsFrom kind before line s).filterMap Segment.place?).foldlM
        (Progress.step kind text) p >>= Progress.finish text)
      (output ++ (segmentsFrom kind before line s).flatMap Segment.qualified,
        p.insertions ++ (segmentsFrom kind before line s).filterMap (Segment.insertion? kind))
      (accessesFrom text p.copied p.counted
        ((segmentsFrom kind before line s).filterMap Segment.place?)) := by
  have hnext : ∀ front t : List Char, (t.reverse ++ front).reverse = front.reverse ++ t := by
    intro front t
    rw [List.reverse_append, List.reverse_reverse]
  fun_induction segmentsFrom kind before line s generalizing p output pending passed with
  | case1 before line =>
    rw [List.append_nil] at htext
    rw [htext] at hat
    obtain ⟨last, hend⟩ := hat.ends_finish
    refine ⟨last, ?_⟩
    rw [List.filterMap_nil, List.foldlM_nil, pure_bind, List.flatMap_nil, List.filterMap_nil,
      List.append_nil, List.append_nil]
    exact hend
  | case2 before line c s d following hsplit ih =>
    obtain ⟨p₁, ⟨more, hstep, hlog⟩, ⟨_, _, hat₁⟩, hinsertions₁⟩ := exists_ends_step hat htext hsplit
    rw [← hnext] at hat₁
    have htext₁ : (d.text.reverse ++ before).reverse ++ following = text.toList := by
      rw [hnext, List.append_assoc, splitDeclaration_append hsplit, htext]
    obtain ⟨last, hsteps⟩ := ih hat₁ htext₁
    refine ⟨last, ?_⟩
    rw [List.filterMap_cons_some (f := Segment.place?) rfl, List.foldlM_cons, bind_assoc, hlog,
      List.flatMap_cons, ← List.append_assoc, filterMap_cons_eq, ← List.append_assoc, ← hinsertions₁]
    exact hstep.bind hsteps
  | case3 before line c s hnone split =>
    rename_i ih
    -- nothing is read here: what stands between two declaration lines waits for the next of them
    have hat₁ := hat.skip split.1
    rw [← hnext] at hat₁
    have htext₁ : (split.1.reverse ++ before).reverse ++ split.2 = text.toList := by
      rw [hnext, List.append_assoc, splitOther_append, htext]
    obtain ⟨last, hsteps⟩ := ih hat₁ htext₁
    refine ⟨last, ?_⟩
    rw [List.flatMap_cons, ← List.append_assoc]
    exact hsteps

/-- A pass by byte offsets ends with what it gives by characters. -/
theorem run_passAt (kind : Declaration) (text : String) :
    (passAt kind text).run [] = some (pass kind text.toList, accesses kind text) ∧
      (∀ a ∈ accesses kind text, a.IsSound text) ∧ InOrder (accesses kind text) := by
  obtain ⟨last, hend⟩ := @exists_ends_steps kind text [] [] [] 1 {} [] text.toList .start rfl
  exact ⟨hend.run [], hend.leads.sound, hend.leads.inOrder⟩

end Run

section Whole

/-- Passes by byte offsets end with what they give by characters. -/
theorem passesAt?_eq (kinds : List Declaration) (text : String) :
    passesAt? kinds text =
      some ⟨String.ofList (passes kinds text.toList).1, (passes kinds text.toList).2⟩ := by
  induction kinds using List.reverseRecOn with
  | nil =>
    rw [passesAt?, passes, List.foldlM_nil, List.foldl_nil, String.ofList_toList]
    rfl
  | append_singleton kinds kind ih =>
    have hrun := (run_passAt kind (String.ofList (passes kinds text.toList).1)).1
    rw [String.toList_ofList] at hrun
    rw [passesAt?, List.foldlM_append, ← passesAt?, ih, passes_concat]
    simp only [List.foldlM_cons, List.foldlM_nil, Option.bind_eq_bind, Option.bind_some, hrun]
    rfl

/--
A window is missing exactly beyond the text and inside a character; no pass reads at such a place,
so none fails.
-/
theorem offsets_exact :
    (∀ text offset, windowAt? text offset = none ↔
      text.utf8ByteSize < offset ∨ InsideCharacter text.toList offset) ∧
    (∀ text offset w, windowAt? text offset = some w ↔
      ∃ front back : String, text = front ++ back ∧ front.utf8ByteSize = offset ∧
        IsLongestEnd front.toList w.toList) ∧
    (∀ kind text, (passAt kind text).run [] = some (pass kind text.toList, accesses kind text) ∧
      (∀ a ∈ accesses kind text, a.IsSound text) ∧ InOrder (accesses kind text)) ∧
    ∀ rules text, qualifyAt? rules text = some (qualify rules text) :=
  ⟨fun _ _ => windowAt?_eq_none_iff, fun _ _ _ => windowAt?_eq_some_iff, run_passAt,
    fun rules text => passesAt?_eq rules.enabled text⟩

/-- A text that begins with a character of two bytes. -/
theorem offsets_exact_accent :
    windowAt? "é\nfun a()" 1 = none ∧ windowAt? "é\nfun a()" 3 = some "é\n" ∧
      (passAt .function "é\nfun a()").run [] = some (pass .function "é\nfun a()".toList,
        [⟨.part, 3, 3⟩, ⟨.part, 3, 6⟩, ⟨.part, 6, 10⟩, ⟨.between, 0, 3⟩, ⟨.lookback, 3, 3⟩,
          ⟨.count, 0, 3⟩, ⟨.between, 10, 10⟩]) ∧
      qualifyAt? {} "é\nfun a()" = some (qualify {} "é\nfun a()") := by
  obtain ⟨hnone, hsome, hpass, hqualify⟩ := offsets_exact
  have hinside : InsideCharacter "é\nfun a()".toList 1 :=
    ⟨[], 'é', "\nfun a()".toList, by decide, by decide, by decide⟩
  have hlongest : IsLongestEnd "é\n".toList "é\n".toList :=
    ⟨List.suffix_rfl, by decide, fun _ hend _ => hend.length_le⟩
  have haccesses : accesses .function "é\nfun a()" =
      [⟨.part, 3, 3⟩, ⟨.part, 3, 6⟩, ⟨.part, 6, 10⟩, ⟨.between, 0, 3⟩, ⟨.lookback, 3, 3⟩,
        ⟨.count, 0, 3⟩, ⟨.between, 10, 10⟩] := by decide +kernel
  refine ⟨(hnone _ _).2 (.inr hinside),
    (hsome _ _ _).2 ⟨"é\n", "fun a()", by decide, by decide, hlongest⟩, ?_, hqualify {} _⟩
  rw [← haccesses]
  exact (hpass .function _).1

end Whole

end ExplicitApi.Qualify
