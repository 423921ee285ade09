import ExplicitApi.FileTree.Change
import ExplicitApi.Proofs.Results

/-!
What writing changes in a tree. Giving a file new content moves no path: what a path leads to
depends on the names, directories and links of a tree alone.
-/
namespace ExplicitApi

theorem fromUTF8?_toUTF8 (text : String) : String.fromUTF8? text.toUTF8 = some text := by
  rw [String.fromUTF8?, String.toUTF8_eq_toByteArray, dif_pos text.isValidUTF8]
  rfl

def Entry.bare : Entry → Entry
  | .file .. => .file .empty default
  | entry => entry

namespace FileTree

/-- Whether two trees differ in the contents and times of files alone. -/
structure SameShape (t t' : FileTree) : Prop where
  home : t'.home = t.home
  writable : t'.writable = t.writable
  bare : ∀ loc, (t'.lookup loc).map Entry.bare = (t.lookup loc).map Entry.bare

variable {t t' : FileTree} {loc : Location} {content : ByteArray} {modified : Timestamp}

theorem SameShape.symm (h : t.SameShape t') : t'.SameShape t :=
  ⟨h.home.symm, h.writable.symm, fun loc => (h.bare loc).symm⟩

theorem SameShape.trans {t'' : FileTree} (h : t.SameShape t') (h' : t'.SameShape t'') :
    t.SameShape t'' :=
  ⟨h'.home.trans h.home, h'.writable.trans h.writable, fun loc => (h'.bare loc).trans (h.bare loc)⟩

/-- What is found in a tree, unless it is a file, is found in every tree of the same shape. -/
theorem SameShape.lookup_eq (h : SameShape t t') {found : Option Entry}
    (hlookup : t.lookup loc = found) (hfile : ∀ c m, found ≠ some (.file c m)) :
    t'.lookup loc = found := by
  have hbare := h.bare loc
  rw [hlookup] at hbare
  cases found with
  | none => simpa using hbare
  | some e =>
    cases hnew : t'.lookup loc with
    | none => simp [hnew] at hbare
    | some e' => cases e <;> cases e' <;> simp_all [Entry.bare]

theorem SameShape.exists_file (h : SameShape t t')
    (hfile : t.lookup loc = some (.file content modified)) :
    ∃ c m, t'.lookup loc = some (.file c m) := by
  have hbare := h.bare loc
  cases hnew : t'.lookup loc with
  | none => simp [hfile, hnew] at hbare
  | some e =>
    cases e with
    | file c m => exact ⟨c, m, rfl⟩
    | directory => simp [hfile, hnew, Entry.bare] at hbare
    | link target => simp [hfile, hnew, Entry.bare] at hbare

theorem follow_congr (h : SameShape t t') (followLast : Bool) (links : Nat) (here : Location)
    (pieces : List (List Char)) :
    t'.follow followLast links here pieces = t.follow followLast links here pieces := by
  fun_induction t.follow followLast links here pieces with
  | case1 => rw [follow]
  | case2 links here piece rest hvoid ih => rw [follow, if_pos hvoid, ih]
  | case3 links here rest hvoid ih => rw [follow, if_neg hvoid, if_pos rfl, ih]
  | case4 links here piece rest hvoid hup next hlookup hall =>
    have hnew : t'.lookup (here ++ [piece]) = none :=
      h.lookup_eq hlookup nofun
    simp [follow, hvoid, hup, hnew, hall, next]
  | case5 links here piece rest hvoid hup next hlookup hall =>
    have hnew : t'.lookup (here ++ [piece]) = none :=
      h.lookup_eq hlookup nofun
    simp [follow, hvoid, hup, hnew, hall]
  | case6 links here piece rest hvoid hup next hlookup ih =>
    have hnew : t'.lookup (here ++ [piece]) = some .directory :=
      h.lookup_eq hlookup nofun
    simp [follow, hvoid, hup, hnew, ← ih, next]
  | case7 links here piece hvoid hup next content modified hlookup =>
    obtain ⟨c, m, hnew⟩ : ∃ c m, t'.lookup (here ++ [piece]) = some (.file c m) :=
      h.exists_file hlookup
    simp [follow, hvoid, hup, hnew, next]
  | case8 links here piece rest hvoid hup next content modified hlookup hrest =>
    obtain ⟨c, m, hnew⟩ : ∃ c m, t'.lookup (here ++ [piece]) = some (.file c m) :=
      h.exists_file hlookup
    simp [follow, hvoid, hup, hnew, hrest]
  | case9 links here piece rest hvoid hup next target hlookup hlast =>
    have hnew : t'.lookup (here ++ [piece]) = some (.link target) :=
      h.lookup_eq hlookup nofun
    simp [follow, hvoid, hup, hnew, hlast, next]
  | case10 here piece rest hvoid hup next target hlookup hlast =>
    have hnew : t'.lookup (here ++ [piece]) = some (.link target) :=
      h.lookup_eq hlookup nofun
    simp only [follow, hvoid, hup, hnew, hlast, if_false, Bool.false_eq_true]
  | case11 here piece rest hvoid hup next target hlookup hlast links start ih =>
    have hnew : t'.lookup (here ++ [piece]) = some (.link target) :=
      h.lookup_eq hlookup nofun
    simp only [follow, hvoid, hup, hnew, hlast, if_false, Bool.false_eq_true, ← ih]
    rfl

theorem resolve_congr (h : SameShape t t') (followLast : Bool) (path : Path) :
    t'.resolve followLast path = t.resolve followLast path := by
  rw [resolve, resolve, h.home]
  simp only [follow_congr h]

theorem locate_congr (h : SameShape t t') (path : Path) : t'.locate path = t.locate path := by
  rw [locate, locate, resolve_congr h]

theorem hasPath_of_locate_error {path : Path} {e : IoError} (h : t.locate path = .error e) :
    t.hasPath path = false := by
  rw [hasPath, entry, h]
  rfl

theorem locate_eq_ok_iff {path : Path} :
    t.locate path = .ok loc ↔ t.resolve true path = .ok (.existing loc) := by
  rw [locate, bind_eq_ok_iff]
  constructor
  · rintro ⟨target, hresolve, h⟩
    cases target with
    | existing l =>
      cases h
      exact hresolve
    | absent l asDirectory => cases h
  · intro h
    exact ⟨_, h, rfl⟩

theorem entry_eq_ok_iff {path : Path} {e : Entry} :
    t.entry path = .ok e ↔ ∃ loc, t.locate path = .ok loc ∧ t.lookup loc = some e := by
  rw [entry, bind_eq_ok_iff]
  refine exists_congr fun loc => and_congr_right fun _ => ?_
  cases t.lookup loc with
  | none => exact ⟨nofun, nofun⟩
  | some e' => exact ⟨fun h => by cases h; rfl, fun h => by cases h; rfl⟩

theorem read_eq_ok_iff {path : Path} :
    t.read path = .ok content ↔ ∃ modified, t.entry path = .ok (.file content modified) := by
  rw [read, bind_eq_ok_iff]
  constructor
  · rintro ⟨e, hentry, h⟩
    cases e with
    | file c m =>
      cases h
      exact ⟨m, hentry⟩
    | directory => cases h
    | link target => cases h
  · rintro ⟨modified, hentry⟩
    exact ⟨_, hentry, rfl⟩

theorem readText_eq_ok_iff {path : Path} {text : String} :
    t.readText path = .ok text ↔
      ∃ content, t.read path = .ok content ∧ String.fromUTF8? content = some text := by
  rw [readText, bind_eq_ok_iff]
  refine exists_congr fun content => and_congr_right fun _ => ?_
  cases String.fromUTF8? content with
  | none => exact ⟨nofun, nofun⟩
  | some text' => exact ⟨fun h => by cases h; rfl, fun h => by cases h; rfl⟩

theorem readText_eq_ok_iff_lookup {path : Path} {text : String} :
    t.readText path = .ok text ↔ ∃ loc content modified, t.locate path = .ok loc ∧
      t.lookup loc = some (.file content modified) ∧ String.fromUTF8? content = some text := by
  constructor
  · intro h
    obtain ⟨content, hread, htext⟩ := readText_eq_ok_iff.1 h
    obtain ⟨modified, hentry⟩ := read_eq_ok_iff.1 hread
    obtain ⟨loc, hloc, hlookup⟩ := entry_eq_ok_iff.1 hentry
    exact ⟨loc, content, modified, hloc, hlookup, htext⟩
  · rintro ⟨loc, content, modified, hloc, hlookup, htext⟩
    exact readText_eq_ok_iff.2 ⟨content, read_eq_ok_iff.2 ⟨modified, entry_eq_ok_iff.2
      ⟨loc, hloc, hlookup⟩⟩, htext⟩

theorem lookup_of_ne_nil (t : FileTree) (hloc : loc ≠ []) :
    t.lookup loc = t.entries.find? loc := by
  cases loc with
  | nil => exact absurd rfl hloc
  | cons name loc => rfl

theorem mayPut_of_file (h : t.lookup loc = some (.file content modified)) :
    t.mayPut loc = true := by
  have hne : loc ≠ [] := by
    rintro rfl
    cases h
  have habove : t.lookup loc.dropLast = some .directory := by
    have hnested := (t.nested loc _ (mem_of_lookup hne h)).2
    by_cases hroot : loc.dropLast = []
    · rw [hroot]
      rfl
    · rw [lookup_of_ne_nil t hroot]
      exact OrderedMap.find?_eq_some_iff.2 (hnested hroot)
  have hnamed : loc.all Path.isName = true := t.named loc _ (mem_of_lookup hne h)
  simp [mayPut, isDirectoryAt, hne, hnamed, habove, h, -List.all_eq_true]

theorem lookup_put {entry : Entry} (may : t.mayPut loc = true) (l : Location) :
    (t.put loc entry).lookup l = if l = loc then some entry else t.lookup l := by
  have hne : loc ≠ [] := by
    rintro rfl
    cases may
  rw [put, dif_pos may]
  by_cases hl : l = []
  · rw [if_neg (hl ▸ hne.symm), hl]
    rfl
  · rw [lookup_of_ne_nil _ hl, lookup_of_ne_nil _ hl]
    exact OrderedMap.find?_insert t.entries loc entry l

/-- Putting an entry changes nothing but what is at its location. -/
theorem lookup_put_cases (t : FileTree) (loc : Location) (entry : Entry) (l : Location) :
    (t.put loc entry).lookup l = t.lookup l ∨ (t.put loc entry).lookup l = some entry := by
  by_cases may : t.mayPut loc = true
  · rw [lookup_put may]
    split
    · exact .inr rfl
    · exact .inl rfl
  · rw [put, dif_neg may]
    exact .inl rfl

theorem lookup_putContent (h : t.lookup loc = some (.file content modified)) (b : ByteArray)
    (l : Location) :
    (t.putContent loc b).lookup l = if l = loc then some (.file b t.tick.clock) else t.lookup l :=
  lookup_put (t := t.tick) (mayPut_of_file (t := t.tick) h) l

theorem sameShape_putContent (h : t.lookup loc = some (.file content modified)) (b : ByteArray) :
    t.SameShape (t.putContent loc b) := by
  have hput : t.putContent loc b = _ := dif_pos (mayPut_of_file (t := t.tick) h)
  refine ⟨hput ▸ rfl, hput ▸ rfl, fun l => ?_⟩
  rw [lookup_putContent h]
  split
  · next hl =>
    rw [hl, h]
    rfl
  · rfl

theorem write_eq_writeAt {path : Path} (hloc : t.locate path = .ok loc)
    (h : t.lookup loc = some (.file content modified)) (b : ByteArray) :
    t.write path b = t.writeAt loc b := by
  have hdirectory : t.isDirectoryAt loc = false := by simp [isDirectoryAt, h]
  rw [write, locate_eq_ok_iff.1 hloc]
  simp [bind, Except.bind, hdirectory]

/-- A path that leads to a file is written there, if it may be. -/
theorem write_of_file {path : Path} (hloc : t.locate path = .ok loc)
    (h : t.lookup loc = some (.file content modified)) (hwritable : t.writable loc = true)
    (b : ByteArray) : t.write path b = .ok (t.putContent loc b) := by
  rw [write_eq_writeAt hloc h, writeAt, if_pos hwritable]

theorem write_of_locked {path : Path} (hloc : t.locate path = .ok loc)
    (h : t.lookup loc = some (.file content modified)) (hlocked : t.writable loc = false)
    (b : ByteArray) : t.write path b = .error .permissionDenied := by
  rw [write_eq_writeAt hloc h, writeAt, if_neg (by simp [hlocked])]

theorem eq_of_writeAt {b : ByteArray} (h : t.writeAt loc b = .ok t') :
    t' = t.putContent loc b ∧ ∀ b', t.writeAt loc b' = .ok (t.putContent loc b') := by
  unfold writeAt at h ⊢
  split at h
  · next hwritable =>
    cases h
    exact ⟨rfl, fun b' => if_pos hwritable⟩
  · cases h

/-- Writing puts the content somewhere, and would put any other content there. -/
theorem exists_of_write {path : Path} {b : ByteArray} (h : t.write path b = .ok t') :
    ∃ loc, t' = t.putContent loc b ∧ ∀ b', t.write path b' = .ok (t.putContent loc b') := by
  rw [write, bind_eq_ok_iff] at h
  obtain ⟨target, htarget, h⟩ := h
  cases target with
  | existing loc =>
    dsimp only at h
    split at h
    · cases h
    · next hfile =>
      obtain ⟨rfl, hall⟩ := eq_of_writeAt h
      refine ⟨loc, rfl, fun b' => ?_⟩
      rw [write, htarget, ok_bind]
      exact (if_neg hfile).trans (hall b')
  | absent loc asDirectory =>
    dsimp only at h
    split at h
    · cases h
    · next hfile =>
      obtain ⟨rfl, hall⟩ := eq_of_writeAt h
      refine ⟨loc, rfl, fun b' => ?_⟩
      rw [write, htarget, ok_bind]
      exact (if_neg hfile).trans (hall b')

theorem lookup_write {path : Path} {b : ByteArray} (h : t.write path b = .ok t') (l : Location) :
    t'.lookup l = t.lookup l ∨ ∃ m, t'.lookup l = some (.file b m) := by
  obtain ⟨loc, rfl, -⟩ := exists_of_write h
  exact (lookup_put_cases t.tick loc (.file b t.tick.clock) l).imp_right fun h => ⟨_, h⟩

section Directories

variable {P : FileTree → Prop} (hput : ∀ t loc, P t → P (t.put loc .directory))

include hput

theorem of_makeDirectory {path : Path} (h : t.makeDirectory path = .ok t') (ht : P t) : P t' := by
  rw [makeDirectory, bind_eq_ok_iff] at h
  obtain ⟨target, _, h⟩ := h
  cases target with
  | existing loc => cases h
  | absent loc asDirectory =>
    cases h
    exact hput t loc ht

theorem of_ensureDirectory {path : Path} (h : t.ensureDirectory path = .ok t') (ht : P t) :
    P t' := by
  unfold ensureDirectory at h
  split at h
  · split at h
    · cases h
      exact ht
    · cases h
  · exact of_makeDirectory hput h ht

theorem of_makeDirectories_go (fuel : Nat) {path : Path}
    (h : makeDirectories.go fuel t path = .ok t') (ht : P t) : P t' := by
  induction fuel generalizing t t' path with
  | zero => exact of_ensureDirectory hput h ht
  | succ fuel ih =>
    unfold makeDirectories.go at h
    split at h
    · split at h
      · exact of_ensureDirectory hput h ht
      · obtain ⟨above, habove, h⟩ := bind_eq_ok_iff.1 h
        exact of_ensureDirectory hput h (ih habove ht)
    · exact of_ensureDirectory hput h ht

/-- What putting a directory keeps is kept when directories are made. -/
theorem of_makeDirectories {path : Path} (h : t.makeDirectories path = .ok t') (ht : P t) :
    P t' := by
  unfold makeDirectories at h
  split at h
  · cases h
    exact ht
  · exact of_makeDirectories_go hput _ h ht

end Directories

/-- Making directories makes no file. -/
theorem lookup_makeDirectories {path : Path} (h : t.makeDirectories path = .ok t') (l : Location) :
    t'.lookup l = t.lookup l ∨ t'.lookup l = some .directory := by
  refine of_makeDirectories (P := fun u => u.lookup l = t.lookup l ∨ u.lookup l = some .directory)
    (fun u loc hu => ?_) h (.inl rfl)
  rcases lookup_put_cases u loc .directory l with heq | hdirectory
  · rwa [heq]
  · exact .inr hdirectory

end FileTree

end ExplicitApi
