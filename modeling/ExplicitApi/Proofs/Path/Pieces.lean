import ExplicitApi.Path
import ExplicitApi.Proofs.Text.Splitting
import Mathlib.Data.List.DropRight

/-!
Paths cut into a lead and pieces. Main statements: cutting and putting together are inverse, and two
paths have the same components when they have the same lead and the same pieces that name something.
-/
namespace ExplicitApi.Path

variable {p q : Path} {name piece : List Char}

theorem isVoid_iff : isVoid piece = true ↔ piece = [] ∨ piece = ['.'] := by
  simp [isVoid]

/-- A name is one piece of a path, and moves on from a directory to something in it. -/
theorem isName_iff :
    isName name = true ↔ isVoid name = false ∧ name ≠ ['.', '.'] ∧ separator ∉ name := by
  simp [isName, and_assoc]

theorem pieces_ne_nil (s : List Char) : pieces s ≠ [] := List.splitOn_ne_nil _ _

theorem pieces_of_isName (h : isName name = true) : pieces name = [name] :=
  Text.splitOn_eq_singleton (isName_iff.1 h).2.2

theorem joinPieces_pieces (s : List Char) : joinPieces (pieces s) = s :=
  List.intercalate_splitOn separator

/-- The piece in front of the others that makes a lead. -/
def Lead.front : Lead → List (List Char)
  | root => [[]]
  | current => [['.']]
  | none => []

/-- Whether pieces may follow a lead, and do not make another one. -/
def Lead.Fits : Lead → List (List Char) → Prop
  | root, rest => rest ≠ []
  | current, _ => True
  | none, rest => rest ≠ [] ∧ rest.head? ≠ some ['.'] ∧ (rest.head? = some [] → rest = [[]])

theorem parts_eq_iff {lead : Lead} {rest : List (List Char)} :
    p.parts = (lead, rest) ↔ pieces p.spelling.toList = lead.front ++ rest ∧ lead.Fits rest := by
  obtain ⟨first, more, hpieces⟩ := List.exists_cons_of_ne_nil (pieces_ne_nil p.spelling.toList)
  unfold parts
  rw [hpieces]
  dsimp only
  split
  · next hfirst =>
    cases lead <;> simp [Lead.front, Lead.Fits, hfirst]
    rintro rfl
    simp
  · next hfirst =>
    split
    · next hroot =>
      obtain ⟨rfl, hmore⟩ := hroot
      cases lead <;> simp [Lead.front, Lead.Fits]
      · rintro rfl
        exact hmore
      · rintro rfl
        simp [hmore]
    · next hroot =>
      cases lead <;> simp [Lead.front, Lead.Fits, hfirst]
      · rintro rfl rfl
        by_contra hmore
        exact hroot ⟨rfl, hmore⟩
      · rintro rfl
        have hmore : first = [] → first = [] ∧ more = [] :=
          fun h => ⟨h, by_contra fun hne => hroot ⟨h, hne⟩⟩
        simpa [hfirst] using hmore

def lead (p : Path) : Lead := p.parts.1

/-- Pieces without an empty one at their end, as a separator at the end leaves it. -/
def withoutClosing (l : List (List Char)) : List (List Char) :=
  if l.getLast? = some [] then l.dropLast else l

/-- The pieces behind the lead that a longer path begins with. -/
def trunk (p : Path) : List (List Char) := withoutClosing p.parts.2

theorem pieces_eq (p : Path) : pieces p.spelling.toList = p.lead.front ++ p.parts.2 :=
  (parts_eq_iff.1 (rfl : p.parts = (p.lead, p.parts.2))).1

theorem fits_parts (p : Path) : p.lead.Fits p.parts.2 :=
  (parts_eq_iff.1 (rfl : p.parts = (p.lead, p.parts.2))).2

/-- Only a path that begins with a separator starts from the root. -/
theorem head?_of_lead (h : p.lead = .root) : p.spelling.toList.head? = some separator := by
  have hpieces := pieces_eq p
  have hrest : p.parts.2 ≠ [] := by
    have hfits := fits_parts p
    rwa [h] at hfits
  obtain ⟨second, more, hparts⟩ := List.exists_cons_of_ne_nil hrest
  rw [h, hparts] at hpieces
  rw [← joinPieces_pieces p.spelling.toList, hpieces]
  rfl

theorem separator_notMem_parts (p : Path) : ∀ piece ∈ p.parts.2, separator ∉ piece := by
  intro piece hpiece
  refine Text.notMem_of_mem_splitOn separator p.spelling.toList piece ?_
  have hmem : piece ∈ pieces p.spelling.toList := by
    rw [pieces_eq]
    exact List.mem_append_right _ hpiece
  exact hmem

theorem withoutClosing_concat_nil (l : List (List Char)) : withoutClosing (l ++ [[]]) = l := by
  simp [withoutClosing]

theorem withoutClosing_append {l : List (List Char)} (front : List (List Char)) (hl : l ≠ []) :
    withoutClosing (front ++ l) = front ++ withoutClosing l := by
  have hlast : (front ++ l).getLast? = l.getLast? := List.getLast?_append_of_ne_nil _ hl
  unfold withoutClosing
  rw [hlast, List.dropLast_append_of_ne_nil hl]
  split <;> rfl

theorem withoutClosing_isPrefix (l : List (List Char)) : withoutClosing l <+: l := by
  unfold withoutClosing
  split
  · exact List.dropLast_prefix l
  · exact List.prefix_rfl

/-- An empty piece names nothing. -/
theorem filter_withoutClosing (l : List (List Char)) :
    (withoutClosing l).filter (fun piece => !isVoid piece) =
      l.filter fun piece => !isVoid piece := by
  unfold withoutClosing
  split
  · next hlast =>
    obtain ⟨l, rfl⟩ := List.getLast?_eq_some_iff.1 hlast
    simp [isVoid]
  · rfl

theorem withoutClosing_front_append (p : Path) :
    withoutClosing (p.lead.front ++ p.parts.2) = p.lead.front ++ p.trunk := by
  by_cases hrest : p.parts.2 = []
  · have hfits := fits_parts p
    cases hlead : p.lead <;> simp_all [Lead.front, Lead.Fits, trunk, withoutClosing]
  · exact withoutClosing_append _ hrest

/-- What is joined to a path stands behind the pieces of the path. -/
theorem pieces_join (p : Path) {name : String} (hname : name.toList.head? ≠ some separator) :
    pieces (p.join name).spelling.toList = p.lead.front ++ p.trunk ++ pieces name.toList := by
  rw [← withoutClosing_front_append, ← pieces_eq]
  unfold join
  rw [if_neg hname]
  split
  · next hopen =>
    rw [Bool.or_eq_true, decide_eq_true_eq, String.isEmpty_iff] at hopen
    rcases hopen with hempty | hend
    · simp [hempty, pieces, withoutClosing]
    · obtain ⟨front, hfront⟩ := List.getLast?_eq_some_iff.1 hend
      have hpieces : pieces (front ++ [separator]) = pieces front ++ [[]] :=
        List.splitOn_append_cons_of_beq front [] (beq_self_eq_true separator)
      rw [String.toList_append, hfront, hpieces, withoutClosing_concat_nil, List.append_assoc]
      exact List.splitOn_append_cons_of_beq front name.toList (beq_self_eq_true separator)
  · next hclosed =>
    rw [Bool.or_eq_true, decide_eq_true_eq, String.isEmpty_iff, not_or] at hclosed
    have hlast : (pieces p.spelling.toList).getLast? ≠ some [] := by
      intro h
      rcases (Text.getLast?_splitOn_eq_nil_iff _ _).1 h with hempty | hend
      · exact hclosed.1 (by simpa using hempty)
      · exact hclosed.2 hend
    rw [withoutClosing, if_neg hlast]
    simp only [String.toList_append, List.append_assoc]
    exact List.splitOn_append_cons_of_beq p.spelling.toList name.toList (beq_self_eq_true separator)

theorem components_eq (p : Path) :
    p.components = p.lead.components ++
      (p.trunk.filter fun piece => !isVoid piece).map componentOfPiece := by
  rw [trunk, filter_withoutClosing]
  rfl

theorem componentOfPiece_injective : Function.Injective componentOfPiece := by
  intro a b h
  unfold componentOfPiece at h
  split at h <;> split at h <;> simp_all

theorem componentOfPiece_of_isName (h : isName name = true) :
    componentOfPiece name = .name name :=
  if_neg (isName_iff.1 h).2.1

def Lead.ofComponents : List Component → Lead
  | .root :: _ => root
  | .current :: _ => current
  | _ => none

theorem ofComponents_components (p : Path) : Lead.ofComponents p.components = p.lead := by
  rw [components_eq]
  cases p.lead with
  | root => rfl
  | current => rfl
  | none =>
    cases p.trunk.filter fun piece => !isVoid piece with
    | nil => rfl
    | cons piece rest =>
      simp only [Lead.components, Lead.component?, Option.toList, List.nil_append, List.map_cons,
        componentOfPiece]
      split <;> rfl

theorem trunk_ne_nil (hlead : p.lead = .none) (hp : p.isEmpty = false) : p.trunk ≠ [] := by
  intro htrunk
  have hfits := fits_parts p
  have hpieces := pieces_eq p
  rw [hlead] at hfits hpieces
  have hparts : p.parts.2 = [[]] := by
    rw [trunk, withoutClosing] at htrunk
    split at htrunk
    · next hlast =>
      obtain ⟨front, hfront⟩ := List.getLast?_eq_some_iff.1 hlast
      rw [hfront, List.dropLast_concat] at htrunk
      rw [hfront, htrunk]
      rfl
    · exact absurd htrunk hfits.1
  have hspelling := joinPieces_pieces p.spelling.toList
  rw [hpieces, hparts] at hspelling
  have hempty : p.spelling = "" := String.toList_inj.1 hspelling.symm
  rw [isEmpty, hempty] at hp
  cases hp

/-- The components of a path tell its lead and the pieces that name something. -/
theorem components_eq_iff :
    p.components = q.components ↔ p.lead = q.lead ∧
      p.trunk.filter (fun piece => !isVoid piece) = q.trunk.filter fun piece => !isVoid piece := by
  constructor
  · intro h
    have hlead : p.lead = q.lead := by
      rw [← ofComponents_components p, h, ofComponents_components]
    rw [components_eq, components_eq, hlead] at h
    have hmap := List.append_cancel_left h
    exact ⟨hlead, List.map_injective_iff.2 componentOfPiece_injective hmap⟩
  · rintro ⟨hlead, hpieces⟩
    rw [components_eq, components_eq, hlead, hpieces]

theorem ofComponents_append (l : List Component) (names : List (List Char)) :
    Lead.ofComponents (l ++ names.map .name) = Lead.ofComponents l := by
  cases l with
  | nil => cases names <;> rfl
  | cons c l => cases c <;> rfl

theorem eq_of_map_componentOfPiece {back names : List (List Char)}
    (h : back.map componentOfPiece = names.map .name) :
    back = names ∧ ∀ piece ∈ back, piece ≠ ['.', '.'] := by
  induction back generalizing names with
  | nil =>
    have hnames : names = [] := by simpa using h.symm
    simp [hnames]
  | cons piece back ih =>
    cases names with
    | nil => cases h
    | cons name names =>
      obtain ⟨hpiece, hrest⟩ := List.cons_eq_cons.1 h
      obtain ⟨rfl, hback⟩ := ih hrest
      unfold componentOfPiece at hpiece
      split at hpiece
      · cases hpiece
      · next hup =>
        cases hpiece
        exact ⟨rfl, List.forall_mem_cons.2 ⟨hup, hback⟩⟩

theorem not_isVoid_of_mem_filter {l : List (List Char)}
    (h : piece ∈ l.filter fun piece => !isVoid piece) : isVoid piece = false := by
  simpa using (List.mem_filter.1 h).2

/-- Components behind those of a base are pieces behind those of the base. -/
theorem named_of_components_eq_append {base : Path} {names : List (List Char)}
    (h : p.components = base.components ++ names.map .name) :
    p.lead = base.lead ∧
      p.trunk.filter (fun piece => !isVoid piece) =
        (base.trunk.filter fun piece => !isVoid piece) ++ names ∧
      names.all isName = true := by
  have hlead : p.lead = base.lead := by
    rw [← ofComponents_components p, h, ofComponents_append, ofComponents_components]
  rw [components_eq, components_eq, hlead, List.append_assoc] at h
  obtain ⟨front, back, hnamed, hfront, hback⟩ :=
    List.map_eq_append_iff.1 (List.append_cancel_left h)
  obtain rfl := List.map_injective_iff.2 componentOfPiece_injective hfront
  obtain ⟨rfl, hup⟩ := eq_of_map_componentOfPiece hback
  refine ⟨hlead, hnamed, List.all_eq_true.2 fun name hname => ?_⟩
  have hmem : name ∈ p.trunk.filter fun piece => !isVoid piece := by
    rw [hnamed]
    exact List.mem_append_right _ hname
  have hpart : name ∈ p.parts.2 :=
    (withoutClosing_isPrefix p.parts.2).subset (List.mem_filter.1 hmem).1
  exact isName_iff.2
    ⟨not_isVoid_of_mem_filter hmem, hup name hname, separator_notMem_parts p name hpart⟩

theorem head?_trunk_ne_nil (hlead : p.lead = .none) : p.trunk.head? ≠ some [] := by
  intro hhead
  have hfits := fits_parts p
  rw [hlead] at hfits
  obtain ⟨more, htrunk⟩ := List.head?_eq_some_iff.1 hhead
  obtain ⟨back, hback⟩ := withoutClosing_isPrefix p.parts.2
  have hparts : p.parts.2 = [[]] := by
    refine hfits.2.2 ?_
    rw [← hback, ← trunk, htrunk]
    rfl
  have hnil : p.trunk = [] := by rw [trunk, hparts, withoutClosing]; rfl
  exact List.cons_ne_nil _ _ (htrunk.symm.trans hnil)

/-- Pieces that the trunk of a path begins with may follow its lead, with others behind them. -/
theorem fits_of_isPrefix {rest : List (List Char)} (hbegins : rest <+: p.trunk) (hrest : rest ≠ [])
    (back : List (List Char)) : p.lead.Fits (rest ++ back) := by
  have hfits := fits_parts p
  obtain ⟨piece, more, rfl⟩ := List.exists_cons_of_ne_nil hrest
  obtain ⟨closing, hparts⟩ := hbegins.trans (withoutClosing_isPrefix p.parts.2)
  obtain ⟨_, htrunk⟩ := hbegins
  cases hlead : p.lead with
  | root => exact List.cons_ne_nil _ _
  | current => trivial
  | none =>
    rw [hlead, ← hparts] at hfits
    have hpiece := head?_trunk_ne_nil hlead
    rw [← htrunk] at hpiece
    exact ⟨List.cons_ne_nil _ _, hfits.2.1, fun h => absurd h hpiece⟩

theorem parts_join_of_fits {name : String} (hname : name.toList.head? ≠ some separator)
    (hfits : p.lead.Fits (p.trunk ++ pieces name.toList)) :
    (p.join name).parts = (p.lead, p.trunk ++ pieces name.toList) := by
  refine parts_eq_iff.2 ⟨?_, hfits⟩
  rw [pieces_join p hname, List.append_assoc]

theorem parts_join (p : Path) (h : isName name = true) :
    (p.join (String.ofList name)).parts = (p.lead, p.trunk ++ [name]) := by
  obtain ⟨hvoid, _, hseparator⟩ := isName_iff.1 h
  have hstart : (String.ofList name).toList.head? ≠ some separator := by
    rw [String.toList_ofList]
    exact fun hhead => hseparator (List.mem_of_mem_head? hhead)
  have hpieces : pieces (String.ofList name).toList = [name] := by
    rw [String.toList_ofList, pieces_of_isName h]
  have hfits : p.lead.Fits (p.trunk ++ [name]) := by
    by_cases htrunk : p.trunk = []
    · rw [htrunk]
      cases p.lead <;> simp_all [Lead.Fits, isVoid]
    · exact fits_of_isPrefix List.prefix_rfl htrunk [name]
  rw [← hpieces] at hfits ⊢
  exact parts_join_of_fits hstart hfits

theorem parts_join_of_nonempty (hp : p.isEmpty = false) {name : String}
    (hname : name.toList.head? ≠ some separator) :
    (p.join name).parts = (p.lead, p.trunk ++ pieces name.toList) := by
  have hfits : p.lead.Fits (p.trunk ++ pieces name.toList) := by
    by_cases htrunk : p.trunk = []
    · cases hlead : p.lead with
      | root => exact List.append_ne_nil_of_right_ne_nil _ (pieces_ne_nil _)
      | current => trivial
      | none => exact absurd htrunk (trunk_ne_nil hlead hp)
    · exact fits_of_isPrefix List.prefix_rfl htrunk _
  exact parts_join_of_fits hname hfits

theorem isEmpty_join (hp : p.isEmpty = false) {name : String}
    (hname : name.toList.head? ≠ some separator) : (p.join name).isEmpty = false := by
  have hspelling : p.spelling ≠ "" := by simpa [isEmpty] using hp
  unfold join
  rw [if_neg hname]
  split <;> simp [isEmpty, hspelling]

theorem components_ne_nil (hp : p.isEmpty = false) : p.components ≠ [] := by
  rw [components_eq]
  cases hlead : p.lead with
  | root => exact List.cons_ne_nil _ _
  | current => exact List.cons_ne_nil _ _
  | none =>
    have htrunk := trunk_ne_nil hlead hp
    have hfits := fits_of_isPrefix List.prefix_rfl htrunk []
    have hhead := head?_trunk_ne_nil hlead
    obtain ⟨piece, more, hpieces⟩ := List.exists_cons_of_ne_nil htrunk
    rw [hlead, hpieces] at hfits
    rw [hpieces] at hhead ⊢
    have hvoid : isVoid piece = false := by
      rw [Bool.eq_false_iff, Ne, isVoid_iff, not_or]
      exact ⟨by simpa using hhead, by simpa using hfits.2.1⟩
    simp [hvoid]

/-- Only the empty path has no component. -/
theorem components_eq_nil_iff : p.components = [] ↔ p.isEmpty = true := by
  constructor
  · intro hnil
    by_contra hp
    exact components_ne_nil (by simpa using hp) hnil
  · intro hp
    have hspelling : p = ⟨""⟩ := by
      cases p
      simpa [isEmpty] using hp
    rw [hspelling]
    rfl

theorem lead_join (p : Path) (h : isName name = true) :
    (p.join (String.ofList name)).lead = p.lead := by
  rw [lead, parts_join p h]

theorem trunk_join (p : Path) (h : isName name = true) :
    (p.join (String.ofList name)).trunk = p.trunk ++ [name] := by
  have hname : name ≠ [] := fun hnil => by simp [hnil, isName, isVoid] at h
  rw [trunk, parts_join p h, withoutClosing, if_neg (by simpa using hname)]

theorem components_join (p : Path) (h : isName name = true) :
    (p.join (String.ofList name)).components = p.components ++ [.name name] := by
  have hvoid : isVoid name = false := (isName_iff.1 h).1
  rw [components_eq, components_eq, lead_join p h, trunk_join p h, List.filter_append]
  simp [hvoid, componentOfPiece_of_isName h]

theorem joinPieces_front {lead : Lead} {rest : List (List Char)} (h : lead.Fits rest) :
    (ofParts lead rest).spelling.toList = joinPieces (lead.front ++ rest) := by
  unfold ofParts
  rw [String.toList_ofList]
  cases rest with
  | nil =>
    cases lead with
    | root => exact absurd rfl h
    | current => rfl
    | none => rfl
  | cons piece rest =>
    cases lead with
    | root => rfl
    | current => rfl
    | none => rfl

/-- A path is put together again from its parts. -/
theorem ofParts_parts (p : Path) : ofParts p.lead p.parts.2 = p := by
  have hspelling : (ofParts p.lead p.parts.2).spelling.toList = p.spelling.toList := by
    rw [joinPieces_front (fits_parts p), ← pieces_eq, joinPieces_pieces]
  cases p
  exact congrArg Path.mk (String.toList_inj.1 hspelling)

theorem parts_ofParts {lead : Lead} {rest : List (List Char)} (h : lead.Fits rest)
    (hseparator : ∀ piece ∈ rest, separator ∉ piece) :
    (ofParts lead rest).parts = (lead, rest) := by
  refine parts_eq_iff.2 ⟨?_, h⟩
  rw [joinPieces_front h]
  have hne : lead.front ++ rest ≠ [] := by
    cases lead <;> simp_all [Lead.front, Lead.Fits]
  refine List.splitOn_intercalate separator (fun piece hpiece => ?_) hne
  rcases List.mem_append.1 hpiece with hfront | hrest
  · cases lead <;> simp_all [Lead.front, separator]
  · exact hseparator piece hrest

theorem trimPieces_eq (l : List (List Char)) : trimPieces l = l.rdropWhile isVoid := rfl

theorem trimPieces_of_all_isName {names : List (List Char)} (h : names.all isName = true) :
    trimPieces names = names := by
  rw [trimPieces_eq, List.rdropWhile_eq_self_iff]
  intro hne
  have hlast := List.all_eq_true.1 h _ (List.getLast_mem hne)
  simp [(isName_iff.1 hlast).1]

theorem filter_trimPieces (l : List (List Char)) :
    (trimPieces l).filter (fun piece => !isVoid piece) = l.filter fun piece => !isVoid piece := by
  induction l using List.reverseRecOn with
  | nil => rfl
  | append_singleton l piece ih =>
    by_cases hpiece : isVoid piece = true
    · rw [trimPieces_eq, List.rdropWhile_concat_pos _ _ _ hpiece, ← trimPieces_eq, ih]
      simp [hpiece]
    · rw [trimPieces_eq, List.rdropWhile_concat_neg _ _ _ hpiece]

theorem trimPieces_concat (l : List (List Char)) (h : isName name = true) :
    trimPieces (l ++ [name]) = l ++ [name] := by
  rw [trimPieces_eq, List.rdropWhile_concat_neg]
  simp [(isName_iff.1 h).1]

/-- What stands in front of a name joined to a path, which is the path up to its spelling. -/
def holder (p : Path) : Path := ofParts p.lead (trimPieces p.trunk)

theorem parent?_join (p : Path) (h : isName name = true) :
    (p.join (String.ofList name)).parent? = some p.holder := by
  obtain ⟨piece, more, hkept⟩ := List.exists_cons_of_ne_nil (List.concat_ne_nil name p.trunk)
  have hdrop : (piece :: more).dropLast = p.trunk := by rw [← hkept, List.dropLast_concat]
  unfold parent?
  rw [parts_join p h]
  dsimp only
  rw [trimPieces_concat _ h, hkept]
  dsimp only
  rw [hdrop, holder]

theorem holder_join (p : Path) (h : isName name = true) :
    (p.join (String.ofList name)).holder = p.join (String.ofList name) := by
  have hparts := ofParts_parts (p.join (String.ofList name))
  rw [parts_join p h] at hparts
  rw [holder, trunk_join p h, trimPieces_concat _ h]
  exact hparts

/-- The path of the lead of another one and of pieces that it begins with. -/
theorem components_ofParts (p : Path) {rest : List (List Char)} (hrest : rest <+: p.trunk) :
    (ofParts p.lead (trimPieces rest)).components =
      p.lead.components ++ (rest.filter fun piece => !isVoid piece).map componentOfPiece := by
  by_cases htrim : trimPieces rest = []
  · have hfilter := filter_trimPieces rest
    rw [htrim] at hfilter
    rw [← hfilter, htrim]
    cases p.lead <;> rfl
  · have hbegins : trimPieces rest <+: p.trunk := (List.rdropWhile_prefix isVoid rest).trans hrest
    have hseparator : ∀ piece ∈ trimPieces rest, separator ∉ piece := fun piece hpiece =>
      separator_notMem_parts p piece
        ((hbegins.trans (withoutClosing_isPrefix p.parts.2)).subset hpiece)
    have hfits : p.lead.Fits (trimPieces rest) := by
      simpa using fits_of_isPrefix hbegins htrim []
    rw [components, parts_ofParts hfits hseparator]
    dsimp only
    rw [filter_trimPieces]

theorem components_holder (p : Path) : p.holder.components = p.components := by
  rw [holder, components_ofParts p List.prefix_rfl, ← components_eq]

theorem trimPieces_withoutClosing (l : List (List Char)) :
    trimPieces (withoutClosing l) = trimPieces l := by
  unfold withoutClosing
  split
  · next hlast =>
    obtain ⟨l, rfl⟩ := List.getLast?_eq_some_iff.1 hlast
    rw [List.dropLast_concat, trimPieces_eq, trimPieces_eq, List.rdropWhile_concat_pos _ _ _ rfl]
  · rfl

/-- The parent of a path has all its components but the last. -/
theorem components_of_parent? {q : Path} (h : p.parent? = some q) :
    ∃ last, p.components = q.components ++ [last] := by
  have htrunk : trimPieces p.parts.2 = trimPieces p.trunk := (trimPieces_withoutClosing _).symm
  have hparts : p.parts = (p.lead, p.parts.2) := rfl
  rw [components_eq, ← filter_trimPieces]
  unfold parent? at h
  rw [hparts] at h
  dsimp only at h
  rw [htrunk] at h
  rcases List.eq_nil_or_concat' (trimPieces p.trunk) with hnil | ⟨front, last, hkept⟩
  · rw [hnil] at h ⊢
    cases hlead : p.lead with
    | current =>
      rw [hlead] at h
      cases h
      exact ⟨.current, rfl⟩
    | root | none =>
      rw [hlead] at h
      cases h
  · have hparent : q = ofParts p.lead (trimPieces front) := by
      obtain ⟨first, more, hcons⟩ := List.exists_cons_of_ne_nil (List.concat_ne_nil last front)
      rw [hkept, hcons] at h
      dsimp only at h
      rw [← hcons, List.dropLast_concat] at h
      exact (Option.some.inj h).symm
    have hlast : isVoid last = false := by
      have hends := List.rdropWhile_last_not isVoid p.trunk
      rw [← trimPieces_eq, hkept] at hends
      simpa using hends (List.concat_ne_nil last front)
    have hfront : front <+: p.trunk :=
      (hkept ▸ List.prefix_append front [last]).trans (List.rdropWhile_prefix isVoid p.trunk)
    refine ⟨componentOfPiece last, ?_⟩
    rw [hparent, components_ofParts p hfront, hkept, List.filter_append,
      List.filter_cons_of_pos (by simp [hlast])]
    simp

end ExplicitApi.Path
