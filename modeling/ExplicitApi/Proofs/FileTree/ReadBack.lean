import ExplicitApi.Proofs.FileTree.Following

/-!
Reading what was written. Main statement: a path that was written to leads to what was written, also
when the file was made for it.
-/
namespace ExplicitApi.FileTree

/-- Whether the directory that relative paths start from is there. -/
def IsHomed (t : FileTree) : Prop := t.lookup t.home = some .directory

variable {t t' : FileTree} {loc here : Location} {links : Nat} {pieces : List (List Char)}

/-- What following a path comes upon when it starts in a directory and passes links to the end. -/
def Target.IsReached (t : FileTree) : Target → Prop
  | .existing loc => t.lookup loc = some .directory ∨
      ∃ content modified, t.lookup loc = some (.file content modified)
  | .absent loc _ => t.mayPut loc = true ∧ t.lookup loc = none

theorem lookup_dropLast (h : t.lookup here = some .directory) :
    t.lookup here.dropLast = some .directory := by
  rcases List.eq_nil_or_concat' here with rfl | ⟨front, name, rfl⟩
  · rfl
  · rw [List.dropLast_concat]
    exact lookup_of_lookup_append (List.cons_ne_nil name []) h

theorem mayPut_of_lookup {name : List Char} (h : t.lookup here = some .directory)
    (hname : Path.isName name = true) (hnone : t.lookup (here ++ [name]) = none) :
    t.mayPut (here ++ [name]) = true := by
  have hnames := all_isName_of_lookup h
  simp only [mayPut, isDirectoryAt, List.dropLast_concat, h, hnone, List.all_append, hnames]
  simp [hname]

theorem separator_notMem_pieces (s : List Char) : ∀ piece ∈ Path.pieces s, Path.separator ∉ piece :=
  fun _ hpiece => Text.notMem_of_mem_splitOn Path.separator s _ hpiece

theorem isReached_follow {target : Target} {followLast : Bool} (hlast : followLast = true)
    (h : t.follow followLast links here pieces = .ok target)
    (hhere : t.lookup here = some .directory)
    (hpieces : ∀ piece ∈ pieces, Path.separator ∉ piece) : target.IsReached t := by
  fun_induction t.follow followLast links here pieces with
  | case1 links here =>
    cases h
    exact .inl hhere
  | case2 links here piece rest hvoid ih =>
    exact ih h hhere (List.forall_mem_cons.1 hpieces).2
  | case3 links here rest hvoid ih =>
    exact ih h (lookup_dropLast hhere) (List.forall_mem_cons.1 hpieces).2
  | case4 links here piece rest hvoid hup next hlookup hall =>
    cases h
    have hname := Path.isName_iff.2
      ⟨by simpa using hvoid, hup, (List.forall_mem_cons.1 hpieces).1⟩
    exact ⟨mayPut_of_lookup hhere hname hlookup, hlookup⟩
  | case5 | case8 | case10 => cases h
  | case6 links here piece rest hvoid hup next hlookup ih =>
    exact ih h hlookup (List.forall_mem_cons.1 hpieces).2
  | case7 links here piece hvoid hup next content modified hlookup =>
    cases h
    exact .inr ⟨content, modified, hlookup⟩
  | case9 links here piece rest hvoid hup next target hlookup hstop =>
    rw [hlast] at hstop
    cases hstop.2
  | case11 here piece rest hvoid hup next target hlookup hgo links start ih =>
    refine ih h ?_ (List.forall_mem_append.2
      ⟨separator_notMem_pieces _, (List.forall_mem_cons.1 hpieces).2⟩)
    unfold start
    split
    · rfl
    · exact hhere

/-- A path that led to a free name leads to the file that is put there. -/
theorem follow_of_absent {followLast : Bool} (hlast : followLast = true)
    (h : t.follow followLast links here pieces = .ok (.absent loc false))
    (hnone : t.lookup loc = none) (hsame : ∀ l, l ≠ loc → t'.lookup l = t.lookup l)
    {content : ByteArray} {modified : Timestamp}
    (hfile : t'.lookup loc = some (.file content modified)) :
    t'.follow followLast links here pieces = .ok (.existing loc) := by
  have hfound : ∀ l e, t.lookup l = some e → t'.lookup l = some e := by
    intro l e hl
    rw [hsame l, hl]
    rintro rfl
    cases hnone.symm.trans hl
  fun_induction t.follow followLast links here pieces with
  | case1 | case5 | case7 | case8 | case10 => cases h
  | case2 links here piece rest hvoid ih =>
    rw [follow, if_pos hvoid]
    exact ih h
  | case3 links here rest hvoid ih =>
    rw [follow, if_neg hvoid, if_pos rfl]
    exact ih h
  | case4 links here piece rest hvoid hup next hlookup hall =>
    obtain ⟨hloc, hrest⟩ := Target.absent.inj (Except.ok.inj h)
    have hnil : rest = [] := by simpa using hrest
    have hnext : t'.lookup (here ++ [piece]) = some (.file content modified) := by
      rw [← hloc] at hfile
      exact hfile
    rw [follow, if_neg hvoid, if_neg hup]
    simp only [hnext, hnil, if_true]
    rw [← hloc]
  | case6 links here piece rest hvoid hup next hlookup ih =>
    have hnext : t'.lookup (here ++ [piece]) = some .directory := hfound _ _ hlookup
    rw [follow, if_neg hvoid, if_neg hup]
    simp only [hnext]
    exact ih h
  | case9 links here piece rest hvoid hup next target hlookup hstop =>
    rw [hlast] at hstop
    cases hstop.2
  | case11 here piece rest hvoid hup next target hlookup hgo links start ih =>
    have hnext : t'.lookup (here ++ [piece]) = some (.link target) := hfound _ _ hlookup
    rw [follow, if_neg hvoid, if_neg hup]
    simp only [hnext, hgo, if_false]
    exact ih h

/-- What a path leads to when it starts from the root or from a directory that is there. -/
theorem isReached_resolve {path : Path} {target : Target} (hhome : t.IsHomed)
    (h : t.resolve true path = .ok target) : target.IsReached t := by
  unfold resolve at h
  split at h
  · cases h
  · refine isReached_follow rfl h ?_ (separator_notMem_pieces _)
    split
    · rfl
    · exact hhome

theorem resolve_of_absent {path : Path} (h : t.resolve true path = .ok (.absent loc false))
    (hnone : t.lookup loc = none) (hhome : t'.home = t.home)
    (hsame : ∀ l, l ≠ loc → t'.lookup l = t.lookup l) {content : ByteArray} {modified : Timestamp}
    (hfile : t'.lookup loc = some (.file content modified)) :
    t'.resolve true path = .ok (.existing loc) := by
  unfold resolve at h ⊢
  split at h
  · cases h
  · next hpath =>
    rw [if_neg hpath, hhome]
    exact follow_of_absent rfl h hnone hsame hfile

theorem home_put (t : FileTree) (loc : Location) (e : Entry) : (t.put loc e).home = t.home := by
  unfold put
  split <;> rfl

theorem IsHomed.put (h : t.IsHomed) (loc : Location) (e : Entry) : (t.put loc e).IsHomed := by
  rw [IsHomed, home_put]
  by_cases may : t.mayPut loc = true
  · have hne : t.home ≠ loc := by
      rintro hloc
      rw [IsHomed, hloc] at h
      simp [mayPut, isDirectoryAt, h] at may
    rw [lookup_put may, if_neg hne]
    exact h
  · rw [FileTree.put, dif_neg may]
    exact h

theorem IsHomed.makeDirectories (h : t.IsHomed) {path : Path}
    (hmade : t.makeDirectories path = .ok t') : t'.IsHomed :=
  of_makeDirectories (P := IsHomed) (fun _ loc hu => hu.put loc .directory) hmade h

theorem IsHomed.write (h : t.IsHomed) {path : Path} {content : ByteArray}
    (hwrite : t.write path content = .ok t') : t'.IsHomed := by
  obtain ⟨loc, rfl, -⟩ := exists_of_write hwrite
  exact IsHomed.put (t := t.tick) h loc _

/-- What was written to a path is read from it. -/
theorem read_write {path : Path} {content : ByteArray} (hhome : t.IsHomed)
    (h : t.write path content = .ok t') : t'.read path = .ok content := by
  have hread : ∀ loc, t'.locate path = .ok loc →
      (∃ modified, t'.lookup loc = some (.file content modified)) → t'.read path = .ok content := by
    rintro loc hloc ⟨modified, hfile⟩
    exact read_eq_ok_iff.2 ⟨modified, entry_eq_ok_iff.2 ⟨loc, hloc, hfile⟩⟩
  rw [write, bind_eq_ok_iff] at h
  obtain ⟨target, htarget, h⟩ := h
  have hreached := isReached_resolve hhome htarget
  cases target with
  | existing loc =>
    dsimp only at h
    split at h
    · cases h
    · next hdirectory =>
      obtain ⟨rfl, -⟩ := eq_of_writeAt h
      obtain ⟨old, modified, hfile⟩ : ∃ old modified, t.lookup loc = some (.file old modified) :=
        hreached.resolve_left fun hdir => hdirectory (by simp [isDirectoryAt, hdir])
      refine hread loc ?_ ⟨_, by rw [lookup_putContent hfile, if_pos rfl]⟩
      rw [locate_congr (sameShape_putContent hfile content)]
      exact locate_eq_ok_iff.2 htarget
  | absent loc asDirectory =>
    cases asDirectory with
    | true => cases h
    | false =>
      obtain ⟨rfl, -⟩ := eq_of_writeAt h
      obtain ⟨may, hnone⟩ := hreached
      let written : Entry := .file content t.tick.clock
      have hlookup : ∀ l, (t.tick.put loc written).lookup l =
          if l = loc then some written else t.lookup l := lookup_put may
      have hfile := (hlookup loc).trans (if_pos rfl)
      refine hread loc (locate_eq_ok_iff.2 ?_) ⟨_, hfile⟩
      exact resolve_of_absent htarget hnone (home_put _ _ _)
        (fun l hl => (hlookup l).trans (if_neg hl)) hfile

end ExplicitApi.FileTree
