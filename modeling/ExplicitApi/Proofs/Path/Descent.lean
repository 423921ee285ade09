import ExplicitApi.Proofs.Path.Pieces

/-!
Paths below a root, told by the names that lead to them. Main statements: the names tell the path,
what remains of it behind any directory on the way, and which directories those are.
-/
namespace ExplicitApi.Path

variable {root base : Path} {names back : List (List Char)} {name : List Char}

def descend (root : Path) (names : List (List Char)) : Path :=
  names.foldl (fun path name => path.join (String.ofList name)) root

def ofNames (names : List (List Char)) : Path := ⟨String.ofList (joinPieces names)⟩

theorem descend_concat (root : Path) (names : List (List Char)) (name : List Char) :
    root.descend (names ++ [name]) = (root.descend names).join (String.ofList name) := by
  simp [descend, List.foldl_append]

theorem all_isName_concat :
    (names ++ [name]).all isName = true ↔ names.all isName = true ∧ isName name = true := by
  rw [List.all_append, Bool.and_eq_true, List.all_cons, List.all_nil, Bool.and_true]

theorem lead_descend (root : Path) (h : names.all isName = true) :
    (root.descend names).lead = root.lead := by
  induction names using List.reverseRecOn with
  | nil => rfl
  | append_singleton names name ih =>
    obtain ⟨hnames, hname⟩ := all_isName_concat.1 h
    rw [descend_concat, lead_join _ hname, ih hnames]

theorem trunk_descend (root : Path) (h : names.all isName = true) :
    (root.descend names).trunk = root.trunk ++ names := by
  induction names using List.reverseRecOn with
  | nil => exact (List.append_nil _).symm
  | append_singleton names name ih =>
    obtain ⟨hnames, hname⟩ := all_isName_concat.1 h
    rw [descend_concat, trunk_join _ hname, ih hnames, List.append_assoc]

theorem parts_descend (root : Path) (h : names.all isName = true) (hne : names ≠ []) :
    (root.descend names).parts = (root.lead, root.trunk ++ names) := by
  obtain ⟨names, name, rfl⟩ := (List.eq_nil_or_concat' names).resolve_left hne
  obtain ⟨hnames, hname⟩ := all_isName_concat.1 h
  rw [descend_concat, parts_join _ hname, lead_descend root hnames, trunk_descend root hnames,
    List.append_assoc]

theorem components_descend (root : Path) (h : names.all isName = true) :
    (root.descend names).components = root.components ++ names.map .name := by
  induction names using List.reverseRecOn with
  | nil => exact (List.append_nil _).symm
  | append_singleton names name ih =>
    obtain ⟨hnames, hname⟩ := all_isName_concat.1 h
    rw [descend_concat, components_join _ hname, ih hnames, List.append_assoc, List.map_append]
    rfl

/-- Below one root, paths with the same components are told by the same names. -/
theorem descend_injective {names' : List (List Char)} (h : names.all isName = true)
    (h' : names'.all isName = true)
    (heq : (root.descend names).components = (root.descend names').components) :
    names = names' := by
  rw [components_descend root h, components_descend root h'] at heq
  have hinjective : Function.Injective Component.name := fun _ _ => Component.name.inj
  exact List.map_injective_iff.2 hinjective (List.append_cancel_left heq)

/-- Whether a name leads, from wherever it is followed, down through some names. -/
structure LeadsDown (name : String) (names : List (List Char)) : Prop where
  relative : name.toList.head? ≠ some separator
  filter_pieces : ((pieces name.toList).filter fun piece => !isVoid piece) = names
  all_isName : names.all isName = true
  nonempty : names ≠ []

theorem leadsDown_of_isName {name : String} (h : isName name.toList = true) :
    LeadsDown name [name.toList] := by
  obtain ⟨hvoid, -, hseparator⟩ := isName_iff.1 h
  refine ⟨fun hhead => hseparator (List.mem_of_mem_head? hhead), ?_, ?_, List.cons_ne_nil _ _⟩
  · simp [pieces_of_isName h, hvoid]
  · simp [h]

section Relative

theorem dropNamed_cons_of_isVoid {piece : List Char} (h : isVoid piece = true) (n : Nat)
    (l : List (List Char)) : dropNamed n (piece :: l) = dropNamed n l := by
  cases n with
  | zero => rw [dropNamed, dropNamed, List.dropWhile_cons_of_pos h]
  | succ n => rw [dropNamed, dropNamed, List.dropWhile_cons_of_pos h]

theorem dropNamed_cons_of_not_isVoid {piece : List Char} (h : isVoid piece = false) (n : Nat)
    (l : List (List Char)) : dropNamed (n + 1) (piece :: l) = dropNamed n l := by
  rw [dropNamed, List.dropWhile_cons_of_neg (by simp [h]), List.tail_cons]

theorem dropNamed_append (front l : List (List Char)) :
    dropNamed (front.filter fun piece => !isVoid piece).length (front ++ l) = dropNamed 0 l := by
  induction front with
  | nil => rfl
  | cons piece front ih =>
    cases h : isVoid piece with
    | true =>
      rw [List.filter_cons_of_neg (by simp [h]), List.cons_append, dropNamed_cons_of_isVoid h, ih]
    | false =>
      rw [List.filter_cons_of_pos (by simp [h]), List.cons_append, List.length_cons,
        dropNamed_cons_of_not_isVoid h, ih]

theorem dropNamed_zero_of_all_isName (h : names.all isName = true) : dropNamed 0 names = names := by
  cases names with
  | nil => rfl
  | cons name names =>
    rw [List.all_cons, Bool.and_eq_true] at h
    rw [dropNamed, List.dropWhile_cons_of_neg (by simp [(isName_iff.1 h.1).1])]

theorem length_components (p : Path) :
    p.components.length =
      p.lead.components.length + (p.trunk.filter fun piece => !isVoid piece).length := by
  rw [components_eq, List.length_append, List.length_map]

/-- What remains of a path behind a directory on the way is spelled by the names from there. -/
theorem relativeTo?_descend (hbase : base.components = (root.descend names).components)
    (hroot : root.components ≠ []) (h : (names ++ back).all isName = true) (hback : back ≠ []) :
    (root.descend (names ++ back)).relativeTo? base = some (ofNames back) := by
  have hsplit : names.all isName = true ∧ back.all isName = true := by
    rwa [List.all_append, Bool.and_eq_true] at h
  obtain ⟨hnames, hbackNames⟩ := hsplit
  have hne : names ++ back ≠ [] := List.append_ne_nil_of_right_ne_nil names hback
  have hstarts : (root.descend (names ++ back)).startsWith base = true := by
    rw [startsWith, hbase, components_descend root hnames, components_descend root h,
      List.isPrefixOf_iff_prefix, List.map_append, ← List.append_assoc]
    exact List.prefix_append _ _
  have hlength : base.components.length = root.lead.components.length +
      ((root.trunk ++ names).filter fun piece => !isVoid piece).length := by
    rw [hbase, length_components, lead_descend root hnames, trunk_descend root hnames]
  have hpositive : base.components.length ≠ 0 := by
    rw [hbase, components_descend root hnames, Ne, List.length_eq_zero_iff]
    exact List.append_ne_nil_of_left_ne_nil hroot _
  unfold relativeTo?
  rw [if_pos hstarts, parts_descend root h hne]
  obtain ⟨n, hn⟩ := Nat.exists_eq_succ_of_ne_zero hpositive
  simp only [hn]
  have hcount : n + 1 - root.lead.components.length =
      ((root.trunk ++ names).filter fun piece => !isVoid piece).length := by omega
  rw [hcount, ← List.append_assoc, dropNamed_append, dropNamed_zero_of_all_isName hbackNames,
    trimPieces_of_all_isName hbackNames]
  rfl

end Relative

section Ancestors

theorem holder_descend (root : Path) (h : names.all isName = true) (hne : names ≠ []) :
    (root.descend names).holder = root.descend names := by
  obtain ⟨names, name, rfl⟩ := (List.eq_nil_or_concat' names).resolve_left hne
  rw [descend_concat, holder_join _ (all_isName_concat.1 h).2]

/-- The directories on the way to what names lead to, outermost first. -/
def stations (root : Path) (names : List (List Char)) : List Path :=
  (List.range names.length).map fun depth => (root.descend (names.take depth)).holder

theorem stations_concat (root : Path) (names : List (List Char)) (name : List Char) :
    root.stations (names ++ [name]) = root.stations names ++ [(root.descend names).holder] := by
  have hfront : ∀ depth ∈ List.range names.length,
      (root.descend ((names ++ [name]).take depth)).holder =
        (root.descend (names.take depth)).holder := by
    intro depth hdepth
    rw [List.take_append_of_le_length (Nat.le_of_lt (List.mem_range.1 hdepth))]
  rw [stations, List.length_append, List.length_singleton, List.range_succ, List.map_append,
    List.map_congr_left hfront, stations]
  simp

theorem properAncestors_go_descend (root : Path) (h : names.all isName = true) {fuel : Nat}
    (hfuel : names.length ≤ fuel) :
    ∃ above, properAncestors.go fuel (root.descend names) =
      (root.stations names).reverse ++ above := by
  induction names using List.reverseRecOn generalizing fuel with
  | nil => exact ⟨_, rfl⟩
  | append_singleton names name ih =>
    obtain ⟨hnames, hname⟩ := all_isName_concat.1 h
    rw [List.length_append, List.length_singleton] at hfuel
    obtain ⟨fuel, rfl⟩ := Nat.exists_eq_succ_of_ne_zero (show fuel ≠ 0 by omega)
    have hstep : properAncestors.go (fuel + 1) (root.descend (names ++ [name])) =
        (root.descend names).holder :: properAncestors.go fuel (root.descend names).holder := by
      rw [properAncestors.go, descend_concat, parent?_join _ hname]
    rw [Nat.succ_eq_add_one, hstep, stations_concat, List.reverse_concat]
    by_cases hempty : names = []
    · subst hempty
      exact ⟨_, rfl⟩
    · rw [holder_descend root hnames hempty]
      obtain ⟨above, habove⟩ := ih hnames (show names.length ≤ fuel by omega)
      exact ⟨above, congrArg _ habove⟩

theorem properAncestors_descend (root : Path) (h : names.all isName = true) :
    ∃ above, (root.descend names).properAncestors = (root.stations names).reverse ++ above := by
  refine properAncestors_go_descend root h ?_
  rw [components_descend root h, List.length_append, List.length_map]
  omega

theorem all_isName_take (h : names.all isName = true) (depth : Nat) :
    (names.take depth).all isName = true := by
  rw [List.all_eq_true] at h ⊢
  exact fun name hname => h name (List.mem_of_mem_take hname)

/-- Of the directories on the way only the outermost is the root. -/
theorem stations_cons (root : Path) (h : names.all isName = true) (hne : names ≠ []) :
    ∃ below, root.stations names = root.holder :: below ∧
      ∀ dir ∈ below, dir.same root = false := by
  obtain ⟨n, hn⟩ := Nat.exists_eq_succ_of_ne_zero (mt List.length_eq_zero_iff.1 hne)
  refine ⟨(List.range n).map fun depth => (root.descend (names.take (depth + 1))).holder, ?_, ?_⟩
  · rw [stations, hn, List.range_succ_eq_map, List.map_cons, List.map_map]
    rfl
  · intro dir hdir
    obtain ⟨depth, -, rfl⟩ := List.mem_map.1 hdir
    rw [same, components_holder, components_descend root (all_isName_take h _), beq_eq_false_iff_ne]
    simp [hne]

end Ancestors

end ExplicitApi.Path
