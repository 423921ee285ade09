import ExplicitApi.Proofs.FileTree.Writing
import ExplicitApi.Proofs.Path.Descent

/-!
How the spelling of a path bears on where it leads. Main statements: only the lead and the pieces
that name something count, and a path that goes on from a directory is followed from there.
-/
namespace ExplicitApi.FileTree

variable {t : FileTree} {loc top here : Location} {links : Nat}

/-- Whether a last piece names nothing, so that only a directory can stand in front of it. -/
def EndsVoid (pieces : List (List Char)) : Prop :=
  ∃ front piece, pieces = front ++ [piece] ∧ Path.isVoid piece = true

theorem not_endsVoid_nil : ¬EndsVoid [] := by
  rintro ⟨front, piece, h, -⟩
  exact List.concat_ne_nil piece front h.symm

theorem endsVoid_iff {pieces : List (List Char)} :
    EndsVoid pieces ↔ pieces.getLast?.any Path.isVoid = true := by
  rw [Option.any_eq_true]
  constructor
  · rintro ⟨front, piece, rfl, hpiece⟩
    exact ⟨piece, List.getLast?_concat, hpiece⟩
  · rintro ⟨piece, hlast, hpiece⟩
    obtain ⟨front, rfl⟩ := List.getLast?_eq_some_iff.1 hlast
    exact ⟨front, piece, rfl, hpiece⟩

theorem endsVoid_append_iff {back : List (List Char)} (front : List (List Char)) (h : back ≠ []) :
    EndsVoid (front ++ back) ↔ EndsVoid back := by
  obtain ⟨back, piece, rfl⟩ := (List.eq_nil_or_concat' back).resolve_left h
  constructor
  · rintro ⟨front', piece', heq, hvoid⟩
    rw [← List.append_assoc] at heq
    obtain ⟨-, hpiece⟩ := List.append_inj' heq rfl
    exact ⟨back, piece, rfl, by rwa [List.singleton_inj.1 hpiece]⟩
  · rintro ⟨back', piece', heq, hvoid⟩
    exact ⟨front ++ back', piece', by rw [heq, List.append_assoc], hvoid⟩

theorem endsVoid_of_forall {pieces : List (List Char)} (hne : pieces ≠ [])
    (h : ∀ piece ∈ pieces, Path.isVoid piece = true) : EndsVoid pieces := by
  obtain ⟨front, piece, rfl⟩ := (List.eq_nil_or_concat' pieces).resolve_left hne
  exact ⟨front, piece, rfl, h piece (List.mem_append_right _ (List.mem_singleton_self _))⟩

theorem follow_append_of_forall_isVoid (t : FileTree) (followLast : Bool) (links : Nat)
    (here : Location) {voids : List (List Char)} (h : ∀ piece ∈ voids, Path.isVoid piece = true)
    (rest : List (List Char)) :
    t.follow followLast links here (voids ++ rest) = t.follow followLast links here rest := by
  induction voids with
  | nil => rfl
  | cons piece voids ih =>
    rw [List.forall_mem_cons] at h
    rw [List.cons_append, follow, if_pos h.1, ih h.2]

theorem follow_of_forall_isVoid (t : FileTree) (followLast : Bool) (links : Nat) (here : Location)
    {voids : List (List Char)} (h : ∀ piece ∈ voids, Path.isVoid piece = true) :
    t.follow followLast links here voids = .ok (.existing here) := by
  have hnil := follow_append_of_forall_isVoid t followLast links here h []
  rw [List.append_nil] at hnil
  rw [hnil, follow]

theorem forall_isVoid_of_filter {pieces : List (List Char)}
    (h : pieces.filter (fun piece => !Path.isVoid piece) = []) :
    ∀ piece ∈ pieces, Path.isVoid piece = true := by
  simpa using h

/-- Behind what names nothing, both lists go on with the same piece. -/
theorem exists_of_filter_cons {piece : List Char} {rest pieces' : List (List Char)}
    (hpiece : Path.isVoid piece = false)
    (hfilter : (piece :: rest).filter (fun piece => !Path.isVoid piece) =
      pieces'.filter fun piece => !Path.isVoid piece)
    (hend : EndsVoid pieces' → EndsVoid (piece :: rest)) :
    ∃ voids rest', pieces' = voids ++ piece :: rest' ∧
      (∀ piece ∈ voids, Path.isVoid piece = true) ∧
      rest.filter (fun piece => !Path.isVoid piece) =
        rest'.filter (fun piece => !Path.isVoid piece) ∧
      (EndsVoid rest' → EndsVoid rest) := by
  rw [List.filter_cons_of_pos (by simp [hpiece])] at hfilter
  obtain ⟨voids, rest', rfl, hvoids, -, hrest⟩ := List.filter_eq_cons_iff.1 hfilter.symm
  refine ⟨voids, rest', rfl, by simpa using hvoids, hrest.symm, fun hvoid => ?_⟩
  have hne : rest' ≠ [] := by
    rintro rfl
    exact not_endsVoid_nil hvoid
  have hlast : EndsVoid (voids ++ piece :: rest') :=
    (endsVoid_append_iff voids (List.cons_ne_nil _ _)).2 ((endsVoid_append_iff [piece] hne).2 hvoid)
  obtain ⟨front, last, heq, hlastVoid⟩ := hend hlast
  cases front with
  | nil =>
    obtain ⟨rfl, -⟩ := List.cons_eq_cons.1 heq
    rw [hpiece] at hlastVoid
    cases hlastVoid
  | cons first front => exact ⟨front, last, (List.cons_eq_cons.1 heq).2, hlastVoid⟩

/--
Pieces lead where they lead with others that name nothing between them, but none may be put at the
end.
-/
theorem follow_of_filter_eq {followLast : Bool} {pieces pieces' : List (List Char)}
    (hlast : followLast = true)
    (h : t.follow followLast links here pieces = .ok (.existing loc))
    (hfilter : pieces.filter (fun piece => !Path.isVoid piece) =
      pieces'.filter fun piece => !Path.isVoid piece)
    (hend : EndsVoid pieces' → EndsVoid pieces) :
    t.follow followLast links here pieces' = .ok (.existing loc) := by
  fun_induction t.follow followLast links here pieces generalizing pieces' with
  | case1 links here =>
    rw [follow_of_forall_isVoid t followLast links here (forall_isVoid_of_filter hfilter.symm), ← h]
  | case2 links here piece rest hvoid ih =>
    rw [List.filter_cons_of_neg (by simp [hvoid])] at hfilter
    by_cases hrest : rest = []
    · subst hrest
      rw [follow_of_forall_isVoid t followLast links here (forall_isVoid_of_filter hfilter.symm),
        ← h, follow]
    · exact ih h hfilter fun hvoid' => (endsVoid_append_iff [piece] hrest).1 (hend hvoid')
  | case3 links here rest hvoid ih =>
    obtain ⟨voids, rest', rfl, hvoids, hrest, hend'⟩ :=
      exists_of_filter_cons (by simpa using hvoid) hfilter hend
    rw [follow_append_of_forall_isVoid _ _ _ _ hvoids, follow, if_neg hvoid, if_pos rfl]
    exact ih h hrest hend'
  | case4 | case5 | case8 | case10 => cases h
  | case6 links here piece rest hvoid hup next hlookup =>
    rename_i ih
    obtain ⟨voids, rest', rfl, hvoids, hrest, hend'⟩ :=
      exists_of_filter_cons (by simpa using hvoid) hfilter hend
    have hdirectory : t.lookup (here ++ [piece]) = some .directory := hlookup
    rw [follow_append_of_forall_isVoid _ _ _ _ hvoids, follow, if_neg hvoid, if_neg hup]
    simp only [hdirectory]
    exact ih h hrest hend'
  | case7 links here piece hvoid hup next content modified =>
    rename_i hlookup
    obtain ⟨voids, rest', rfl, hvoids, hrest, hend'⟩ :=
      exists_of_filter_cons (by simpa using hvoid) hfilter hend
    have hfile : t.lookup (here ++ [piece]) = some (.file content modified) := hlookup
    have hnil : rest' = [] := by
      by_contra hne
      have hall := forall_isVoid_of_filter hrest.symm
      exact not_endsVoid_nil (hend' (endsVoid_of_forall hne hall))
    subst hnil
    rw [follow_append_of_forall_isVoid _ _ _ _ hvoids, follow, if_neg hvoid, if_neg hup]
    simp only [hfile, if_true]
    exact h
  | case9 links here piece rest hvoid hup next target hlookup =>
    rename_i hstop
    rw [hlast] at hstop
    cases hstop.2
  | case11 here piece rest hvoid hup next target hlookup hgo links start =>
    rename_i ih
    obtain ⟨voids, rest', rfl, hvoids, hrest, hend'⟩ :=
      exists_of_filter_cons (by simpa using hvoid) hfilter hend
    have hlink : t.lookup (here ++ [piece]) = some (.link target) := hlookup
    have hgo' : ¬(rest' = [] ∧ (!followLast) = true) := by simp [hlast]
    rw [follow_append_of_forall_isVoid _ _ _ _ hvoids, follow, if_neg hvoid, if_neg hup]
    simp only [hlink, hgo', if_false]
    refine ih h ?_ fun hvoid' => ?_
    · rw [List.filter_append, List.filter_append, hrest]
    · by_cases hnil : rest' = []
      · subst hnil
        by_cases hrestNil : rest = []
        · rwa [hrestNil]
        · have hall := forall_isVoid_of_filter hrest
          exact (endsVoid_append_iff _ hrestNil).2 (endsVoid_of_forall hrestNil hall)
      · have hrestVoid := hend' ((endsVoid_append_iff _ hnil).1 hvoid')
        have hne : rest ≠ [] := by
          rintro rfl
          exact not_endsVoid_nil hrestVoid
        exact (endsVoid_append_iff _ hne).2 hrestVoid

/-- Pieces behind some that lead to a directory are followed from there, maybe with fewer links. -/
theorem follow_append_of_directory {followLast : Bool} {pieces : List (List Char)}
    (hlast : followLast = true) (h : t.follow followLast links here pieces = .ok (.existing top))
    (hdirectory : t.lookup top = some .directory) (rest : List (List Char)) :
    ∃ links', t.follow followLast links here (pieces ++ rest) =
      t.follow followLast links' top rest := by
  fun_induction t.follow followLast links here pieces with
  | case1 links here =>
    cases h
    exact ⟨links, rfl⟩
  | case2 links here piece pieces hvoid ih =>
    obtain ⟨links', heq⟩ := ih h
    exact ⟨links', by rw [List.cons_append, follow, if_pos hvoid, heq]⟩
  | case3 links here pieces hvoid ih =>
    obtain ⟨links', heq⟩ := ih h
    exact ⟨links', by rw [List.cons_append, follow, if_neg hvoid, if_pos rfl, heq]⟩
  | case4 | case5 | case8 | case10 => cases h
  | case6 links here piece pieces hvoid hup next hlookup ih =>
    obtain ⟨links', heq⟩ := ih h
    have hfound : t.lookup (here ++ [piece]) = some .directory := hlookup
    refine ⟨links', ?_⟩
    rw [List.cons_append, follow, if_neg hvoid, if_neg hup]
    simp only [hfound]
    exact heq
  | case7 links here piece hvoid hup next content modified hlookup =>
    have htop : here ++ [piece] = top := Target.existing.inj (Except.ok.inj h)
    rw [← htop] at hdirectory
    cases hlookup.symm.trans hdirectory
  | case9 links here piece pieces hvoid hup next target hlookup hstop =>
    rw [hlast] at hstop
    cases hstop.2
  | case11 here piece pieces hvoid hup next target hlookup hgo links start ih =>
    obtain ⟨links', heq⟩ := ih h
    have hlink : t.lookup (here ++ [piece]) = some (.link target) := hlookup
    have hgo' : ¬(pieces ++ rest = [] ∧ (!followLast) = true) := by simp [hlast]
    refine ⟨links', ?_⟩
    rw [List.cons_append, follow, if_neg hvoid, if_neg hup]
    simp only [hlink, hgo', if_false]
    rw [← List.append_assoc]
    exact heq

theorem follow_cons_of_directory {followLast : Bool} {name : List Char}
    (hname : Path.isName name = true) (h : t.lookup (here ++ [name]) = some .directory)
    (rest : List (List Char)) :
    t.follow followLast links here (name :: rest) =
      t.follow followLast links (here ++ [name]) rest := by
  obtain ⟨hvoid, hup, -⟩ := Path.isName_iff.1 hname
  rw [follow, if_neg (by simp [hvoid]), if_neg hup]
  dsimp only
  rw [h]

/-- A link leads on from the directory that it is in, or from the root. -/
theorem follow_cons_of_link {name : List Char} (hname : Path.isName name = true) {target : String}
    (h : t.lookup (here ++ [name]) = some (.link target)) (rest : List (List Char)) :
    t.follow true (links + 1) here (name :: rest) = t.follow true links
      (if target.toList.head? = some Path.separator then [] else here)
      (Path.pieces target.toList ++ rest) := by
  obtain ⟨hvoid, hup, -⟩ := Path.isName_iff.1 hname
  rw [follow, if_neg (by simp [hvoid]), if_neg hup]
  dsimp only
  rw [h]
  simp

theorem follow_cons_parent (t : FileTree) (followLast : Bool) (links : Nat) (here : Location)
    (rest : List (List Char)) :
    t.follow followLast links here (['.', '.'] :: rest) =
      t.follow followLast links here.dropLast rest := by
  rw [follow, if_neg (by decide), if_pos rfl]

def PassesNoLink (t : FileTree) (top : Location) (names : List (List Char)) : Prop :=
  ∀ front, front <+: names → ∀ target, t.lookup (top ++ front) ≠ some (.link target)

/-- Names that pass no link lead where they say. -/
theorem eq_append_of_follow {names : List (List Char)} (hnames : names.all Path.isName = true)
    (hlinks : t.PassesNoLink top names)
    (h : t.follow true links top names = .ok (.existing loc)) : loc = top ++ names := by
  induction names generalizing top with
  | nil =>
    rw [follow] at h
    cases h
    exact (List.append_nil _).symm
  | cons name names ih =>
    rw [List.all_cons, Bool.and_eq_true] at hnames
    obtain ⟨hvoid, hup, -⟩ := Path.isName_iff.1 hnames.1
    have hassoc : ∀ l : List (List Char), top ++ [name] ++ l = top ++ name :: l := by simp
    rw [follow, if_neg (by simp [hvoid]), if_neg hup] at h
    dsimp only at h
    split at h
    · split at h <;> cases h
    · rw [ih hnames.2 (fun front hfront => ?_) h, hassoc]
      rw [hassoc]
      exact hlinks (name :: front) (List.cons_prefix_cons.2 ⟨rfl, hfront⟩)
    · split at h
      · next hnil =>
        cases h
        rw [hnil]
      · cases h
    · next target hlookup =>
      exact absurd hlookup (hlinks [name] (List.cons_prefix_cons.2 ⟨rfl, List.nil_prefix⟩) target)

/-- Everything in front of something in a tree is a directory. -/
theorem lookup_of_lookup_append {front back : Location} {e : Entry} (hback : back ≠ [])
    (h : t.lookup (front ++ back) = some e) : t.lookup front = some .directory := by
  induction back using List.reverseRecOn generalizing e with
  | nil => exact absurd rfl hback
  | append_singleton back name ih =>
    have hne : front ++ (back ++ [name]) ≠ [] := by simp
    have hdrop : (front ++ (back ++ [name])).dropLast = front ++ back := by
      rw [← List.append_assoc, List.dropLast_concat]
    have habove : t.lookup (front ++ back) = some .directory := by
      by_cases hroot : front ++ back = []
      · rw [hroot]
        rfl
      · have hnested := (t.nested _ _ (mem_of_lookup hne h)).2
        rw [hdrop] at hnested
        rw [lookup_of_ne_nil t hroot]
        exact OrderedMap.find?_eq_some_iff.2 (hnested hroot)
    by_cases hnil : back = []
    · rwa [hnil, List.append_nil] at habove
    · exact ih hnil habove

theorem all_isName_of_lookup {e : Entry} (h : t.lookup loc = some e) :
    loc.all Path.isName = true := by
  by_cases hloc : loc = []
  · rw [hloc]
    rfl
  · exact t.named loc e (mem_of_lookup hloc h)

theorem isName_of_lookup {name : List Char} {e : Entry} (h : t.lookup (here ++ [name]) = some e) :
    Path.isName name = true := by
  have hall := all_isName_of_lookup h
  rw [List.all_append, Bool.and_eq_true] at hall
  simpa using hall.2

/-- Names lead to what lies there, unless that is a link, which leads on. -/
theorem follow_of_lookup {names : List (List Char)} {e : Entry}
    (h : t.lookup (top ++ names) = some e) (hlink : ∀ target, e ≠ .link target) :
    t.follow true links top names = .ok (.existing (top ++ names)) := by
  induction names generalizing top with
  | nil => rw [follow, List.append_nil]
  | cons name names ih =>
    have hnames := all_isName_of_lookup h
    rw [List.all_append, List.all_cons, Bool.and_eq_true, Bool.and_eq_true] at hnames
    have hassoc : top ++ name :: names = top ++ [name] ++ names := by simp
    rw [hassoc] at h ⊢
    by_cases hnil : names = []
    · subst hnil
      obtain ⟨hvoid, hup, -⟩ := Path.isName_iff.1 hnames.2.1
      rw [List.append_nil] at h ⊢
      rw [follow, if_neg (by simp [hvoid]), if_neg hup]
      cases e with
      | file content modified => simp [h]
      | directory => simp [h, follow]
      | link target => exact absurd rfl (hlink target)
    · rw [follow_cons_of_directory hnames.2.1 (lookup_of_lookup_append hnil h)]
      exact ih h

/-- Names of which the last is that of a link lead where the link leads. -/
theorem follow_of_link {names : List (List Char)} {name : List Char} {target : String}
    (h : t.lookup (top ++ names ++ [name]) = some (.link target)) :
    t.follow true (links + 1) top (names ++ [name]) = t.follow true links
      (if target.toList.head? = some Path.separator then [] else top ++ names)
      (Path.pieces target.toList) := by
  induction names generalizing top with
  | nil =>
    rw [List.append_nil] at h ⊢
    rw [List.nil_append, follow_cons_of_link (isName_of_lookup h) h, List.append_nil]
  | cons first names ih =>
    have hassoc : top ++ first :: names = top ++ [first] ++ names := by simp
    rw [hassoc] at h ⊢
    have hsplit : t.lookup (top ++ [first] ++ (names ++ [name])) = some (.link target) := by
      rwa [← List.append_assoc]
    have hdirectory := lookup_of_lookup_append (by simp) hsplit
    rw [List.cons_append, follow_cons_of_directory (isName_of_lookup hdirectory) hdirectory]
    exact ih h

theorem directory_ne_link (target : String) : Entry.directory ≠ .link target := by
  intro h
  cases h

theorem file_ne_link {content : ByteArray} {modified : Timestamp} (target : String) :
    Entry.file content modified ≠ .link target := by
  intro h
  cases h

section Paths

variable {p q root : Path} {names : List (List Char)}

def startOf (t : FileTree) (lead : Path.Lead) : Location := if lead = .root then [] else t.home

theorem locate_eq_ok_iff_follow {path : Path} :
    t.locate path = .ok loc ↔ path.isEmpty = false ∧
      t.follow true maxLinks (t.startOf path.lead) (Path.pieces path.spelling.toList) =
        .ok (.existing loc) := by
  rw [locate_eq_ok_iff, resolve]
  cases hempty : path.isEmpty with
  | true => simp
  | false =>
    have hstart : (if path.isAbsolute = true then [] else t.home) = t.startOf path.lead := by
      cases hlead : path.parts.1 <;> simp [startOf, Path.isAbsolute, Path.lead, hlead]
    simp [hstart]

/-- The piece that makes a lead leads nowhere by itself. -/
theorem follow_front (lead : Path.Lead) (pieces : List (List Char)) :
    t.follow true links here (lead.front ++ pieces) = t.follow true links here pieces := by
  refine follow_append_of_forall_isVoid t true links here (fun piece hpiece => ?_) pieces
  cases lead <;> simp_all [Path.Lead.front, Path.isVoid]

/-- Where the pieces behind a lead begin to be followed, and what they are. -/
theorem locate_eq_ok_iff_parts {path : Path} :
    t.locate path = .ok loc ↔ path.isEmpty = false ∧
      t.follow true maxLinks (t.startOf path.lead) path.parts.2 = .ok (.existing loc) := by
  rw [locate_eq_ok_iff_follow, Path.pieces_eq, follow_front]

theorem endsVoid_withoutClosing (pieces : List (List Char)) :
    EndsVoid (Path.withoutClosing pieces) → EndsVoid pieces := by
  unfold Path.withoutClosing
  split
  · next hlast =>
    obtain ⟨front, rfl⟩ := List.getLast?_eq_some_iff.1 hlast
    exact fun _ => ⟨front, [], rfl, rfl⟩
  · exact id

/-- Pieces that name something do not end in one that names nothing. -/
theorem not_endsVoid_filter (pieces : List (List Char)) :
    ¬EndsVoid (pieces.filter fun piece => !Path.isVoid piece) := by
  rintro ⟨front, piece, heq, hpiece⟩
  have hmem : piece ∈ pieces.filter fun piece => !Path.isVoid piece := by simp [heq]
  rw [Path.not_isVoid_of_mem_filter hmem] at hpiece
  cases hpiece

theorem follow_trunk {path : Path} (h : t.locate path = .ok loc) :
    t.follow true maxLinks (t.startOf path.lead) path.trunk = .ok (.existing loc) :=
  follow_of_filter_eq rfl (locate_eq_ok_iff_parts.1 h).2 (Path.filter_withoutClosing _).symm
    (endsVoid_withoutClosing _)

theorem locate_join {name : String} (hname : name.toList.head? ≠ some Path.separator)
    (hp : p.isEmpty = false) :
    t.locate (p.join name) = .ok loc ↔
      t.follow true maxLinks (t.startOf p.lead) (p.trunk ++ Path.pieces name.toList) =
        .ok (.existing loc) := by
  have hparts := Path.parts_join_of_nonempty hp hname
  rw [locate_eq_ok_iff_parts, hparts, Path.lead, hparts]
  exact and_iff_right (Path.isEmpty_join hp hname)

/-- What is joined to a path is found alike from every spelling of the path. -/
theorem locate_join_congr (hpq : p.components = q.components) {name : String}
    (h : t.locate (p.join name) = .ok loc) : t.locate (q.join name) = .ok loc := by
  by_cases hname : name.toList.head? = some Path.separator
  · rw [Path.join, if_pos hname] at h ⊢
    exact h
  have hempty : p.isEmpty = q.isEmpty := by
    rw [Bool.eq_iff_iff, ← Path.components_eq_nil_iff, ← Path.components_eq_nil_iff, hpq]
  cases hp : p.isEmpty with
  | true =>
    have hpEmpty : p.spelling = "" := by simpa [Path.isEmpty] using hp
    have hqEmpty : q.spelling = "" := by simpa [Path.isEmpty] using hempty.symm.trans hp
    have hsame : p = q := by
      cases p
      cases q
      exact congrArg Path.mk (hpEmpty.trans hqEmpty.symm)
    rwa [← hsame]
  | false =>
    obtain ⟨hlead, hfilter⟩ := Path.components_eq_iff.1 hpq
    rw [locate_join hname hp, hlead] at h
    refine (locate_join hname (hempty ▸ hp)).2 (follow_of_filter_eq rfl h ?_ fun hvoid => ?_)
    · rw [List.filter_append, List.filter_append, hfilter]
    · exact (endsVoid_append_iff _ (Path.pieces_ne_nil _)).2
        ((endsVoid_append_iff _ (Path.pieces_ne_nil _)).1 hvoid)

theorem locate_descend (h : names.all Path.isName = true) (hne : names ≠ []) :
    t.locate (root.descend names) = .ok loc ↔ (root.descend names).isEmpty = false ∧
      t.follow true maxLinks (t.startOf root.lead) (root.trunk ++ names) = .ok (.existing loc) := by
  rw [locate_eq_ok_iff_parts, Path.parts_descend root h hne, Path.lead_descend root h]

/-- What lies below a root is where its path leads, unless it is a link. -/
theorem locate_descend_of_lookup {e : Entry} (hroot : t.locate root = .ok top)
    (h : t.lookup (top ++ names) = some e) (hlink : ∀ target, e ≠ .link target)
    (hne : names ≠ []) : t.locate (root.descend names) = .ok (top ++ names) := by
  have hall := all_isName_of_lookup h
  rw [List.all_append, Bool.and_eq_true] at hall
  have hdirectory : t.lookup top = some .directory := lookup_of_lookup_append hne h
  have hcomponents : (root.descend names).components ≠ [] := by
    rw [Path.components_descend root hall.2]
    simp [hne]
  obtain ⟨links, hfollow⟩ :=
    follow_append_of_directory rfl (follow_trunk hroot) hdirectory names
  refine (locate_descend hall.2 hne).2 ⟨?_, ?_⟩
  · rwa [Ne, Path.components_eq_nil_iff, Bool.not_eq_true] at hcomponents
  · rw [hfollow, follow_of_lookup h hlink]

/-- What a path leads to is led to by its lead and those of its pieces that name something. -/
theorem follow_named {path : Path} (h : t.locate path = .ok loc) :
    t.follow true maxLinks (t.startOf path.lead)
      (path.trunk.filter fun piece => !Path.isVoid piece) = .ok (.existing loc) := by
  exact follow_of_filter_eq rfl (follow_trunk h) (by simp) (absurd · (not_endsVoid_filter _))

/-- Whether paths that go on from `base` are followed from `top`. -/
def StartsAt (t : FileTree) (base : Path) (top : Location) : Prop :=
  base = ⟨""⟩ ∧ top = t.home ∨ t.locate base = .ok top ∧ t.lookup top = some .directory

theorem StartsAt.follow {base : Path} (h : t.StartsAt base top) (names : List (List Char)) :
    ∃ links, t.follow true maxLinks (t.startOf base.lead)
      ((base.trunk.filter fun piece => !Path.isVoid piece) ++ names) =
        t.follow true links top names := by
  rcases h with ⟨rfl, rfl⟩ | ⟨hlocate, hdirectory⟩
  · exact ⟨maxLinks, rfl⟩
  · exact follow_append_of_directory rfl (follow_named hlocate) hdirectory names

/-- A path of names behind a base that pass no link leads where the names say. -/
theorem location_of_passesNoLink {base path : Path} (hbase : t.StartsAt base top)
    (hcomponents : path.components = base.components ++ names.map .name)
    (hlinks : t.PassesNoLink top names) (h : t.locate path = .ok loc) : loc = top ++ names := by
  obtain ⟨hlead, hnamed, hnames⟩ := Path.named_of_components_eq_append hcomponents
  have hfollow := follow_named h
  obtain ⟨links, hrest⟩ := hbase.follow names
  rw [hlead, hnamed, hrest] at hfollow
  exact eq_append_of_follow hnames hlinks hfollow

theorem isEmpty_of_not_endsVoid {path : Path} (h : ¬EndsVoid path.parts.2) :
    path.isEmpty = false := by
  rw [Bool.eq_false_iff]
  intro hempty
  refine h (endsVoid_iff.2 ?_)
  have hspelling : path = ⟨""⟩ := by
    cases path
    simpa [Path.isEmpty] using hempty
  rw [hspelling]
  rfl

/-- A path of names behind a base leads to what lies there, unless that is a link. -/
theorem locate_of_lookup {base path : Path} {e : Entry} (hbase : t.StartsAt base top)
    (hcomponents : path.components = base.components ++ names.map .name)
    (h : t.lookup (top ++ names) = some e) (hlink : ∀ target, e ≠ .link target)
    (hend : ¬EndsVoid path.parts.2) : t.locate path = .ok (top ++ names) := by
  obtain ⟨hlead, hnamed, -⟩ := Path.named_of_components_eq_append hcomponents
  obtain ⟨links, hrest⟩ := hbase.follow names
  have hfollow := hrest.trans (follow_of_lookup h hlink)
  rw [← hlead, ← hnamed, Path.trunk, Path.filter_withoutClosing] at hfollow
  refine locate_eq_ok_iff_parts.2 ⟨isEmpty_of_not_endsVoid hend, ?_⟩
  exact follow_of_filter_eq rfl hfollow (by simp) fun hvoid => absurd hvoid hend

theorem locate_of_named {path : Path} {e : Entry} (hcomponents : path.components = names.map .name)
    (h : t.lookup (t.home ++ names) = some e) (hlink : ∀ target, e ≠ .link target)
    (hend : path.parts.2.getLast?.any Path.isVoid = false) :
    t.locate path = .ok (t.home ++ names) := by
  refine locate_of_lookup (.inl ⟨rfl, rfl⟩) hcomponents h hlink ?_
  rw [endsVoid_iff, hend]
  exact Bool.false_ne_true

/-- A path that ends in a link from which a target is followed leads where the target leads. -/
theorem locate_of_link {path : Path} {name : List Char} {target : String}
    (hparts : path.parts = (.none, names ++ [name]))
    (h : t.lookup (t.home ++ names ++ [name]) = some (.link target))
    (htarget : t.follow true (maxLinks - 1)
      (if target.toList.head? = some Path.separator then [] else t.home ++ names)
      (Path.pieces target.toList) = .ok (.existing loc)) :
    t.locate path = .ok loc := by
  have hstart : t.startOf path.lead = t.home := by
    rw [Path.lead, hparts]
    rfl
  have hend : ¬EndsVoid path.parts.2 := by
    obtain ⟨hvoid, -, -⟩ := Path.isName_iff.1 (isName_of_lookup h)
    rw [hparts, endsVoid_iff]
    simp [hvoid]
  refine locate_eq_ok_iff_parts.2 ⟨isEmpty_of_not_endsVoid hend, ?_⟩
  rw [hstart, hparts]
  exact (follow_of_link h).trans htarget

end Paths

end ExplicitApi.FileTree
