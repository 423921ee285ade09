import ExplicitApi.Proofs.Qualify.Passes

/-!
What qualifying leaves alone. Main statement: a qualified text needs no further qualifier. A text
grows by the same length with each insertion, so that it stays as it is when nothing is inserted
and only then.
-/
namespace ExplicitApi

namespace Qualify

def Segment.text : Segment → List Char
  | .declaration _ _ d => d.text
  | .other s => s

theorem flatMap_text_segmentsFrom (kind : Declaration) (before : List Char) (n : Nat)
    (s : List Char) : (segmentsFrom kind before n s).flatMap Segment.text = s := by
  fun_induction segmentsFrom kind before n s with
  | case1 => rfl
  | case2 before n c s d following h ih =>
    rw [List.flatMap_cons, ih]
    exact splitDeclaration_append h
  | case3 before n c s h split ih =>
    rw [List.flatMap_cons, ih]
    exact splitOther_append (c :: s)

/-- A segment keeps its characters, and gains a qualifier with an insertion. -/
theorem Segment.perm_qualified (kind : Declaration) (segment : Segment) :
    segment.qualified.Perm
      ((segment.insertion? kind).toList.flatMap (fun _ => inserted) ++ segment.text) := by
  cases segment with
  | other s => exact .refl s
  | declaration before n d =>
    dsimp only [qualified, text, insertion?]
    split_ifs
    · exact .refl _
    · simp only [Option.toList_some, List.flatMap_singleton, DeclarationLine.text,
        List.append_assoc]
      exact List.perm_append_comm_assoc _ _ _

theorem perm_flatMap_qualified (kind : Declaration) (found : List Segment) :
    (found.flatMap Segment.qualified).Perm
      ((found.filterMap (Segment.insertion? kind)).flatMap (fun _ => inserted) ++
        found.flatMap Segment.text) := by
  induction found with
  | nil => exact .refl []
  | cons segment found ih =>
    have hsplit : ((segment :: found).filterMap (Segment.insertion? kind)) =
        (segment.insertion? kind).toList ++ found.filterMap (Segment.insertion? kind) := by
      rw [List.filterMap_cons]
      cases segment.insertion? kind <;> rfl
    rw [hsplit, List.flatMap_append, List.flatMap_cons, List.flatMap_cons]
    refine ((segment.perm_qualified kind).append ih).trans ?_
    simp only [List.append_assoc]
    exact (List.perm_append_comm_assoc _ _ _).append_left _

theorem perm_pass (kind : Declaration) (s : List Char) :
    (pass kind s).1.Perm ((pass kind s).2.flatMap (fun _ => inserted) ++ s) := by
  have htext : (segments kind s).flatMap Segment.text = s := flatMap_text_segmentsFrom kind [] 1 s
  have hperm := perm_flatMap_qualified kind (segments kind s)
  rwa [htext] at hperm

theorem Segment.qualified_eq_text {kind : Declaration} {segment : Segment}
    (h : segment.insertion? kind = none) : segment.qualified = segment.text := by
  cases segment with
  | other s => rfl
  | declaration before n d =>
    dsimp only [insertion?] at h
    split_ifs at h with hholds
    exact if_pos hholds

theorem pass_eq_self {kind : Declaration} {s : List Char} (h : (pass kind s).2 = []) :
    (pass kind s).1 = s := by
  have hnone : ∀ segment ∈ segments kind s, segment.qualified = segment.text :=
    fun segment hs => Segment.qualified_eq_text (List.filterMap_eq_nil_iff.1 h segment hs)
  calc (segments kind s).flatMap Segment.qualified
    _ = (segments kind s).flatMap Segment.text := List.flatMap_congr hnone
    _ = s := flatMap_text_segmentsFrom kind [] 1 s

theorem passes_concat (kinds : List Declaration) (kind : Declaration) (s : List Char) :
    passes (kinds ++ [kind]) s =
      ((pass kind (passes kinds s).1).1,
        (passes kinds s).2 ++ (pass kind (passes kinds s).1).2) := by
  simp [passes, List.foldl_append]

/-- A text keeps its characters, and gains a qualifier with each insertion. -/
theorem perm_passes (kinds : List Declaration) (s : List Char) :
    (passes kinds s).1.Perm ((passes kinds s).2.flatMap (fun _ => inserted) ++ s) := by
  induction kinds using List.reverseRecOn with
  | nil => exact .refl s
  | append_singleton kinds kind ih =>
    rw [passes_concat, List.flatMap_append]
    refine (perm_pass kind _).trans ((ih.append_left _).trans ?_)
    simp only [List.append_assoc]
    exact List.perm_append_comm_assoc _ _ _

theorem length_passes (kinds : List Declaration) (s : List Char) :
    (passes kinds s).1.length = s.length + inserted.length * (passes kinds s).2.length := by
  rw [(perm_passes kinds s).length_eq, List.length_append, List.length_flatMap, List.map_const',
    List.sum_replicate_nat, Nat.mul_comm, Nat.add_comm]

theorem passes_eq_self (kinds : List Declaration) (s : List Char) (h : (passes kinds s).2 = []) :
    (passes kinds s).1 = s := by
  induction kinds using List.reverseRecOn with
  | nil => rfl
  | append_singleton kinds kind ih =>
    rw [passes_concat] at h ⊢
    obtain ⟨hfirst, hlast⟩ := List.append_eq_nil_iff.1 h
    exact (pass_eq_self hlast).trans (ih hfirst)

end Qualify

/-- A text stays as it is when nothing is inserted, and only then. -/
theorem insertions_eq_nil_iff {rules : Rules} {text : String} :
    (qualify rules text).insertions = [] ↔ (qualify rules text).text = text := by
  constructor
  · intro h
    rw [← String.toList_inj, Qualify.toList_qualify]
    exact Qualify.passes_eq_self rules.enabled text.toList h
  · intro h
    have hlength : (qualify rules text).text.toList.length = text.toList.length +
        Qualify.inserted.length * (qualify rules text).insertions.length := by
      rw [Qualify.toList_qualify]
      exact Qualify.length_passes rules.enabled text.toList
    have hinserted : 0 < Qualify.inserted.length := by decide
    rw [h] at hlength
    have hzero := Nat.mul_eq_zero.1 (by omega :
      Qualify.inserted.length * (qualify rules text).insertions.length = 0)
    exact List.length_eq_zero_iff.1 (hzero.resolve_left (by omega))

theorem Qualify.linesAfter_eq_self {rules : Rules} {lines : List (List Char)}
    (h : ∀ line ∈ lines, ¬IsDeclarationLine rules line) (above : List (List Char)) :
    linesAfter rules above lines = lines := by
  induction lines generalizing above with
  | nil => rfl
  | cons line lines ih =>
    have hline : lineAfter rules above line = line :=
      if_neg fun hdeclaration => h line List.mem_cons_self hdeclaration.1
    rw [linesAfter, hline, ih fun l hl => h l (List.mem_cons_of_mem _ hl)]

/-- A text without declaration lines needs no qualifier. -/
theorem insertions_eq_nil_of_lines {rules : Rules} {text : String}
    (h : ∀ line ∈ text.toList.splitOn '\n', ¬Qualify.IsDeclarationLine rules line) :
    (qualify rules text).insertions = [] := by
  rw [insertions_eq_nil_iff, ← String.toList_inj, Qualify.toList_qualify_eq_joinLines,
    Qualify.linesAfter_eq_self h, Qualify.joinLines, List.intercalate_splitOn]

/-- One qualifying after another gives the text that the rules of both give at once. -/
theorem text_qualify_both (r s : Rules) (text : String) :
    (qualify s (qualify r text).text).text = (qualify (r.both s) text).text := by
  rw [← String.toList_inj, Qualify.toList_qualify_eq_joinLines, Qualify.lines_qualify,
    Qualify.linesAfter_linesAfter .nil, Qualify.toList_qualify_eq_joinLines]

theorem text_qualify_qualify (rules : Rules) (text : String) :
    (qualify rules (qualify rules text).text).text = (qualify rules text).text := by
  rw [text_qualify_both, Rules.both_self]

theorem insertions_qualify_qualify (rules : Rules) (text : String) :
    (qualify rules (qualify rules text).text).insertions = [] :=
  insertions_eq_nil_iff.2 (text_qualify_qualify rules text)

/-- A qualified text needs no further qualifier. -/
theorem qualify_idempotent (rules : Rules) (text : String) :
    qualify rules (qualify rules text).text = ⟨(qualify rules text).text, []⟩ := by
  have htext := text_qualify_qualify rules text
  have hnone := insertions_qualify_qualify rules text
  cases hq : qualify rules (qualify rules text).text with
  | mk t found =>
    rw [hq] at htext hnone
    rw [← htext, ← hnone]

end ExplicitApi
