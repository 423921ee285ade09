import ExplicitApi.Proofs.FileTree.Walk

/-!
Trees that differ in one file. Main statement: a path that does not lead to that file leads to the
same place in both.
-/
namespace ExplicitApi.FileTree

variable {t t' : FileTree} {spot loc top here : Location} {links : Nat} {path : Path}

def HasAtMostFile (t : FileTree) (spot : Location) : Prop :=
  ∀ e, t.lookup spot = some e → ∃ content modified, e = .file content modified

/-- Whether two trees are the same but for a file that one of them has, or both with other content. -/
structure DifferAt (t t' : FileTree) (spot : Location) : Prop where
  home : t'.home = t.home
  elsewhere : ∀ loc, loc ≠ spot → t'.lookup loc = t.lookup loc
  before : t.HasAtMostFile spot
  after : t'.HasAtMostFile spot

theorem DifferAt.symm (h : t.DifferAt t' spot) : t'.DifferAt t spot :=
  ⟨h.home.symm, fun loc hloc => (h.elsewhere loc hloc).symm, h.after, h.before⟩

/-- A file that is put where there is none, or another one, makes such a tree. -/
theorem differAt_put (hmay : t.mayPut spot = true) (hbefore : t.HasAtMostFile spot)
    (content : ByteArray) (modified : Timestamp) :
    t.DifferAt (t.put spot (.file content modified)) spot := by
  refine ⟨?_, fun loc hloc => ?_, hbefore, fun e he => ⟨content, modified, ?_⟩⟩
  · rw [FileTree.put, dif_pos hmay]
  · rw [lookup_put hmay, if_neg hloc]
  · rw [lookup_put hmay, if_pos rfl] at he
    exact (Option.some.inj he).symm

/-- What is no file is not where the trees differ. -/
theorem DifferAt.lookup_eq (h : t.DifferAt t' spot) {e : Entry} (hlookup : t.lookup loc = some e)
    (hfile : ∀ content modified, e ≠ .file content modified) : t'.lookup loc = some e := by
  rw [h.elsewhere loc, hlookup]
  rintro rfl
  obtain ⟨content, modified, he⟩ := h.before e hlookup
  exact hfile content modified he

theorem DifferAt.lookup_directory (h : t.DifferAt t' spot)
    (hlookup : t.lookup loc = some .directory) : t'.lookup loc = some .directory := by
  refine h.lookup_eq hlookup ?_
  intro content modified hfile
  cases hfile

theorem DifferAt.lookup_link (h : t.DifferAt t' spot) {target : String}
    (hlookup : t.lookup loc = some (.link target)) : t'.lookup loc = some (.link target) := by
  refine h.lookup_eq hlookup ?_
  intro content modified hfile
  cases hfile

theorem DifferAt.follow (h : t.DifferAt t' spot) {followLast : Bool} {pieces : List (List Char)}
    (hfollow : t.follow followLast links here pieces = .ok (.existing loc)) (hloc : loc ≠ spot) :
    t'.follow followLast links here pieces = .ok (.existing loc) := by
  fun_induction t.follow followLast links here pieces with
  | case1 links here => rw [FileTree.follow, hfollow]
  | case2 links here piece rest hvoid ih => rw [FileTree.follow, if_pos hvoid, ih hfollow]
  | case3 links here rest hvoid ih =>
    rw [FileTree.follow, if_neg hvoid, if_pos rfl, ih hfollow]
  | case4 | case5 | case8 | case10 => cases hfollow
  | case6 links here piece rest hvoid hup next hlookup ih =>
    have hdirectory : t'.lookup (here ++ [piece]) = some .directory := h.lookup_directory hlookup
    rw [FileTree.follow, if_neg hvoid, if_neg hup]
    simp only [hdirectory]
    exact ih hfollow
  | case7 links here piece hvoid hup next content modified hlookup =>
    have hnext : here ++ [piece] = loc := Target.existing.inj (Except.ok.inj hfollow)
    have hfile : t'.lookup (here ++ [piece]) = some (.file content modified) := by
      rw [h.elsewhere _ (hnext ▸ hloc)]
      exact hlookup
    rw [FileTree.follow, if_neg hvoid, if_neg hup]
    simp only [hfile, if_true]
    exact hfollow
  | case9 links here piece rest hvoid hup next target hlookup hstop =>
    have hlink : t'.lookup (here ++ [piece]) = some (.link target) := h.lookup_link hlookup
    rw [FileTree.follow, if_neg hvoid, if_neg hup]
    simp only [hlink, hstop]
    exact hfollow
  | case11 here piece rest hvoid hup next target hlookup hgo links start ih =>
    have hlink : t'.lookup (here ++ [piece]) = some (.link target) := h.lookup_link hlookup
    rw [FileTree.follow, if_neg hvoid, if_neg hup]
    simp only [hlink, hgo, if_false]
    exact ih hfollow

/-- A path that leads elsewhere leads there in both trees. -/
theorem DifferAt.locate (h : t.DifferAt t' spot) (hpath : t.locate path = .ok loc)
    (hloc : loc ≠ spot) : t'.locate path = .ok loc := by
  rw [locate_eq_ok_iff_follow] at hpath ⊢
  have hstart : t'.startOf path.lead = t.startOf path.lead := by rw [startOf, startOf, h.home]
  rw [hstart]
  exact hpath.imp_right fun hfollow => h.follow hfollow hloc

def Finds (t : FileTree) (path : Path) (loc : Location) : Prop :=
  t.locate path = .ok loc ∧ t.lookup loc ≠ none

/-- A path that does not find the file where the trees differ reads the same in both. -/
theorem DifferAt.read (h : t.DifferAt t' spot) (hpath : ¬t.Finds path spot) {content : ByteArray}
    (hread : t.read path = .ok content) : t'.read path = .ok content := by
  obtain ⟨modified, hentry⟩ := read_eq_ok_iff.1 hread
  obtain ⟨loc, hloc, hlookup⟩ := entry_eq_ok_iff.1 hentry
  have hne : loc ≠ spot := by
    rintro rfl
    exact hpath ⟨hloc, by rw [hlookup]; exact Option.some_ne_none _⟩
  exact read_eq_ok_iff.2 ⟨modified, entry_eq_ok_iff.2 ⟨loc, h.locate hloc hne,
    (h.elsewhere loc hne).trans hlookup⟩⟩

theorem DifferAt.readText (h : t.DifferAt t' spot) (hpath : ¬t.Finds path spot) {text : String}
    (hread : t.readText path = .ok text) : t'.readText path = .ok text := by
  obtain ⟨content, hcontent, htext⟩ := readText_eq_ok_iff.1 hread
  exact readText_eq_ok_iff.2 ⟨content, h.read hpath hcontent, htext⟩

/-- A path leads to the same directories in both trees. -/
theorem DifferAt.locate_directory (h : t.DifferAt t' spot) (hpath : t.locate path = .ok top)
    (hdirectory : t.lookup top = some .directory) : t'.locate path = .ok top := by
  refine h.locate hpath ?_
  rintro rfl
  obtain ⟨content, modified, heq⟩ := h.before _ hdirectory
  cases heq

/-- What a path leads to behind some pieces is led to from where those lead. -/
theorem exists_of_follow_append {followLast : Bool} {front back : List (List Char)}
    (hlast : followLast = true)
    (h : t.follow followLast links here (front ++ back) = .ok (.existing loc)) :
    ∃ links' top, t.follow followLast links here front = .ok (.existing top) ∧
      t.follow followLast links' top back = .ok (.existing loc) := by
  fun_induction t.follow followLast links here front with
  | case1 links here => exact ⟨links, here, rfl, h⟩
  | case2 links here piece rest hvoid ih =>
    rw [List.cons_append, FileTree.follow, if_pos hvoid] at h
    exact ih h
  | case3 links here rest hvoid ih =>
    rw [List.cons_append, FileTree.follow, if_neg hvoid, if_pos rfl] at h
    exact ih h
  | case4 links here piece rest hvoid hup next hlookup
  | case5 links here piece rest hvoid hup next hlookup =>
    have hnone : t.lookup (here ++ [piece]) = none := hlookup
    rw [List.cons_append, FileTree.follow, if_neg hvoid, if_neg hup] at h
    simp only [hnone] at h
    split at h <;> cases h
  | case8 links here piece rest hvoid hup next content modified hlookup hrest =>
    have hfile : t.lookup (here ++ [piece]) = some (.file content modified) := hlookup
    rw [List.cons_append, FileTree.follow, if_neg hvoid, if_neg hup] at h
    simp [hfile, hrest] at h
  | case10 here piece rest hvoid hup next target hlookup hgo =>
    have hlink : t.lookup (here ++ [piece]) = some (.link target) := hlookup
    rw [List.cons_append, FileTree.follow, if_neg hvoid, if_neg hup] at h
    simp [hlink, hlast] at h
  | case6 links here piece rest hvoid hup next hlookup ih =>
    have hdirectory : t.lookup (here ++ [piece]) = some .directory := hlookup
    rw [List.cons_append, FileTree.follow, if_neg hvoid, if_neg hup] at h
    simp only [hdirectory] at h
    exact ih h
  | case7 links here piece hvoid hup next content modified hlookup =>
    have hfile : t.lookup (here ++ [piece]) = some (.file content modified) := hlookup
    rw [List.cons_append, FileTree.follow, if_neg hvoid, if_neg hup] at h
    simp only [hfile, List.nil_append] at h
    split at h
    · next hback =>
      cases h
      exact ⟨links, next, rfl, by rw [hback, FileTree.follow]⟩
    · cases h
  | case9 links here piece rest hvoid hup next target hlookup hstop =>
    rw [hlast] at hstop
    cases hstop.2
  | case11 here piece rest hvoid hup next target hlookup hgo links start ih =>
    have hlink : t.lookup (here ++ [piece]) = some (.link target) := hlookup
    have hgo' : ¬(rest ++ back = [] ∧ (!followLast) = true) := by simp [hlast]
    rw [List.cons_append, FileTree.follow, if_neg hvoid, if_neg hup] at h
    simp only [hlink, hgo', if_false] at h
    rw [← List.append_assoc] at h
    exact ih h

def LinkFree (t : FileTree) : Prop := ∀ loc target, t.lookup loc ≠ some (.link target)

theorem DifferAt.linkFree (h : t.DifferAt t' spot) (hlinks : t.LinkFree) : t'.LinkFree :=
  fun loc target hlink => hlinks loc target (h.symm.lookup_link hlink)

theorem LinkFree.passesNoLink (h : t.LinkFree) (names : List (List Char)) :
    t.PassesNoLink top names := fun _ _ target => h _ target

section Joined

variable {base : Path} {name : String} {names : List (List Char)}

/-- Paths that go on from a base go on from the directory where its pieces lead. -/
theorem startsAt_of_follow_trunk
    (h : t.follow true maxLinks (t.startOf base.lead) base.trunk = .ok (.existing top))
    (hdirectory : t.lookup top = some .directory) : t.StartsAt base top := by
  cases hempty : base.isEmpty with
  | true =>
    obtain rfl : base = ⟨""⟩ := by
      cases base
      simpa [Path.isEmpty] using hempty
    have hhome : t.follow true maxLinks t.home [] = .ok (.existing top) := h
    rw [FileTree.follow] at hhome
    cases hhome
    exact .inl ⟨rfl, rfl⟩
  | false =>
    refine .inr ⟨locate_eq_ok_iff_parts.2 ⟨hempty, ?_⟩, hdirectory⟩
    by_cases hlast : base.parts.2.getLast? = some []
    · obtain ⟨front, hfront⟩ := List.getLast?_eq_some_iff.1 hlast
      rw [Path.trunk, hfront, Path.withoutClosing_concat_nil] at h
      obtain ⟨links, hclosing⟩ := follow_append_of_directory rfl h hdirectory [[]]
      rw [hfront, hclosing]
      exact follow_of_forall_isVoid t true links top (by simp [Path.isVoid])
    · rwa [Path.trunk, Path.withoutClosing, if_neg hlast] at h

theorem DifferAt.startsAt (h : t.DifferAt t' spot) (hbase : t.StartsAt base top) :
    t'.StartsAt base top := by
  rcases hbase with ⟨rfl, rfl⟩ | ⟨hlocate, hdirectory⟩
  · exact .inl ⟨rfl, h.home.symm⟩
  · exact .inr ⟨h.locate_directory hlocate hdirectory, h.lookup_directory hdirectory⟩

theorem StartsAt.eq_of_locate (h : t.StartsAt base top) (hlocate : t.locate base = .ok loc) :
    top = loc := by
  rcases h with ⟨rfl, -⟩ | ⟨hbase, -⟩
  · cases (locate_eq_ok_iff_follow.1 hlocate).1
  · exact Except.ok.inj (hbase.symm.trans hlocate)

/-- A relative name does not change where a path starts. -/
theorem startOf_join (t : FileTree) (base : Path) {name : String}
    (hname : name.toList.head? ≠ some Path.separator) :
    t.startOf (base.join name).lead = t.startOf base.lead := by
  cases hempty : base.isEmpty with
  | true =>
    obtain rfl : base = ⟨""⟩ := by
      cases base
      simpa [Path.isEmpty] using hempty
    have hjoin : Path.join ⟨""⟩ name = ⟨name⟩ := by simp [Path.join, hname]
    have hlead : (⟨name⟩ : Path).lead ≠ .root := fun hroot => hname (Path.head?_of_lead hroot)
    rw [hjoin, startOf, startOf, if_neg hlead, if_neg (by decide)]
  | false => rw [Path.lead, Path.parts_join_of_nonempty hempty hname]

/-- Without links, a name that leads down leads to a place only from where its way there begins. -/
theorem LinkFree.startsAt_of_finds (h : t.LinkFree) (hname : Path.LeadsDown name names)
    (hfinds : t.Finds (base.join name) (top ++ names)) : t.StartsAt base top := by
  obtain ⟨hloc, hfound⟩ := hfinds
  obtain ⟨e, hlookup⟩ := Option.ne_none_iff_exists'.1 hfound
  have hdirectory := lookup_of_lookup_append hname.nonempty hlookup
  have hfollow := (locate_eq_ok_iff_follow.1 hloc).2
  rw [startOf_join t base hname.relative, Path.pieces_join base hname.relative, List.append_assoc,
    follow_front] at hfollow
  obtain ⟨links, here, hfront, hback⟩ := exists_of_follow_append rfl hfollow
  have hnamed : t.follow true links here names = .ok (.existing (top ++ names)) := by
    refine follow_of_filter_eq rfl hback ?_ fun hvoid => ?_
    · simp [← hname.filter_pieces]
    · rw [← hname.filter_pieces] at hvoid
      exact absurd hvoid (not_endsVoid_filter _)
  have hhere := eq_append_of_follow hname.all_isName (h.passesNoLink _) hnamed
  obtain ⟨rfl, -⟩ := List.append_inj' hhere rfl
  exact startsAt_of_follow_trunk hfront hdirectory

/-- Without links, a path that ends in a name leads to what is called so in its parent. -/
theorem LinkFree.location_of_parent? (h : t.LinkFree) (hparent : path.parent? = some base)
    (hbase : t.StartsAt base top) (hname : path.fileName? = some name)
    (hloc : t.locate path = .ok loc) : loc = top ++ [name.toList] := by
  obtain ⟨last, hcomponents⟩ := Path.components_of_parent? hparent
  have hlast : last = .name name.toList := by
    rw [Path.fileName?, hcomponents, List.getLast?_concat] at hname
    cases last with
    | name chars =>
      cases hname
      rw [String.toList_ofList]
    | root | current | parent => cases hname
  rw [hlast] at hcomponents
  exact location_of_passesNoLink hbase hcomponents (h.passesNoLink _) hloc

end Joined

end ExplicitApi.FileTree
