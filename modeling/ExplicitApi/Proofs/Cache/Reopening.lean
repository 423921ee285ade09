import ExplicitApi.Proofs.Cache.RoundTrip
import ExplicitApi.Proofs.FileTree.ReadBack
import ExplicitApi.Proofs.Run.History

/-!
Records that are opened, changed, saved and opened again. Main statement: after a save that succeeds
the file of a record holds all that is in memory.
-/
namespace ExplicitApi

namespace Timestamp

theorem isOfFile_of_ofJson {v : Json} {t : Timestamp} (h : Timestamp.ofJson v = .ok t) :
    t.IsOfFile := by
  unfold ofJson at h
  obtain ⟨p, _, h⟩ := bind_eq_ok_iff.1 h
  obtain ⟨seconds, _, h⟩ := bind_eq_ok_iff.1 h
  obtain ⟨nanoseconds, _, h⟩ := bind_eq_ok_iff.1 h
  dsimp only at h
  have hsize : UInt64.size / 2 = 2 ^ 63 := rfl
  by_cases hwhole : UInt64.size ≤ seconds + nanoseconds / 1000000000
  · rw [if_pos hwhole] at h
    cases h
  · by_cases hhalf : UInt64.size / 2 ≤ seconds + nanoseconds / 1000000000
    · rw [if_neg hwhole, if_pos hhalf] at h
      cases h
    · rw [if_neg hwhole, if_neg hhalf] at h
      cases h
      exact ⟨by dsimp only; omega, Nat.mod_lt _ (by decide)⟩

end Timestamp

def FileTree.HasFileTimes (t : FileTree) : Prop :=
  ∀ loc content modified, t.lookup loc = some (.file content modified) → modified.IsOfFile

theorem Stamp.isOfFile_of_ofJson {v : Json} {stamp : Stamp} (h : Stamp.ofJson v = .ok stamp) :
    stamp.modified.IsOfFile := by
  unfold ofJson at h
  obtain ⟨p, hp, h⟩ := bind_eq_ok_iff.1 h
  obtain ⟨size, _, h⟩ := bind_eq_ok_iff.1 h
  obtain ⟨modified, hmodified, h⟩ := bind_eq_ok_iff.1 h
  obtain ⟨hash, _, h⟩ := bind_eq_ok_iff.1 h
  cases h
  refine Json.of_decodeRecord (P := fun p : Parts => ∀ t ∈ p.modified, Timestamp.IsOfFile t) hp
    nofun ?_ modified (Json.eq_of_required hmodified)
  intro f hf v s s' hs hread
  simp only [fields, List.mem_cons, List.not_mem_nil, or_false] at hf
  rcases hf with rfl | rfl | rfl
  · obtain ⟨_, _, rfl⟩ := Json.Field.exists_of_read hread
    exact hs
  · obtain ⟨time, htime, rfl⟩ := Json.Field.exists_of_read hread
    rintro t ⟨rfl⟩
    exact Timestamp.isOfFile_of_ofJson htime
  · obtain ⟨_, _, rfl⟩ := Json.Field.exists_of_read hread
    exact hs

namespace CacheFiles

variable {files : CacheFiles}

theorem isWellFormed_empty : IsWellFormed ∅ := by
  intro m hm
  cases hm

theorem IsWellFormed.filter (h : files.IsWellFormed)
    (keep : List Path.Component → CacheEntry → Bool) : IsWellFormed (files.filter keep) :=
  fun m hm => h m (List.mem_of_mem_filter hm)

theorem IsWellFormed.put (h : files.IsWellFormed) {path : Path} {stamp : Stamp}
    (hstamp : stamp.modified.IsOfFile) : (files.put path stamp).IsWellFormed :=
  Cache.forall_entries_put (P := fun _ stamp => stamp.modified.IsOfFile) h hstamp

end CacheFiles

namespace Cache

theorem Contents.isWellFormed_of_decodeFiles {v : Json} {files : CacheFiles}
    (h : decodeFiles v = .ok files) : files.IsWellFormed := by
  cases v with
  | object members =>
    refine of_foldlM (P := CacheFiles.IsWellFormed) h CacheFiles.isWellFormed_empty ?_
    intro m _ files files' hfiles hput
    obtain ⟨stamp, hstamp, hput⟩ := bind_eq_ok_iff.1 hput
    cases hput
    exact hfiles.put (Stamp.isOfFile_of_ofJson hstamp)
  | null | bool _ | number _ | string _ | array _ => cases h

theorem Contents.isWellFormed_of_ofJson {v : Json} {contents : Contents}
    (h : Contents.ofJson v = .ok contents) : contents.files.IsWellFormed := by
  unfold ofJson at h
  obtain ⟨p, hp, h⟩ := bind_eq_ok_iff.1 h
  obtain ⟨number, _, h⟩ := bind_eq_ok_iff.1 h
  obtain ⟨fingerprint, _, h⟩ := bind_eq_ok_iff.1 h
  obtain ⟨files, hfiles, h⟩ := bind_eq_ok_iff.1 h
  cases h
  refine Json.of_decodeRecord (P := fun p : Parts => ∀ files ∈ p.files,
    CacheFiles.IsWellFormed files) hp nofun ?_ files (Json.eq_of_required hfiles)
  intro f hf v s s' hs hread
  simp only [fields, List.mem_cons, List.not_mem_nil, or_false] at hf
  rcases hf with rfl | rfl | rfl | rfl
  · obtain ⟨_, _, rfl⟩ := Json.Field.exists_of_read hread
    exact hs
  · obtain ⟨_, _, rfl⟩ := Json.Field.exists_of_read hread
    exact hs
  · obtain ⟨_, _, rfl⟩ := Json.Field.exists_of_read hread
    exact hs
  · obtain ⟨found, hfound, rfl⟩ := Json.Field.exists_of_read hread
    rintro files ⟨rfl⟩
    exact isWellFormed_of_decodeFiles hfound

variable {c c' : Cache} {t t' : FileTree} {path : Path} {now : Time.Instant}

/-- What is read from a text is in order, and nothing of it has to be saved. -/
theorem of_parse {text : String} (h : parse path text = .ok c) :
    c.path = path ∧ c.isDirty = false ∧ c.files.IsWellFormed := by
  unfold parse at h
  split at h
  · split at h
    · cases h
    · next contents hcontents =>
      split at h
      · cases h
      · cases h
        exact ⟨rfl, rfl, Contents.isWellFormed_of_ofJson hcontents⟩
  · cases h

def IsOnDisk (c : Cache) (t : FileTree) : Prop :=
  ∃ text, t.readText c.path = .ok text ∧ parse c.path text = .ok c

theorem IsOnDisk.openAt (h : c.IsOnDisk t) : openAt t c.path = .ok c := by
  obtain ⟨text, htext, hparse⟩ := h
  have hpath : t.hasPath c.path = true := by
    obtain ⟨content, hread, -⟩ := FileTree.readText_eq_ok_iff.1 htext
    obtain ⟨modified, hentry⟩ := FileTree.read_eq_ok_iff.1 hread
    rw [FileTree.hasPath, hentry]
    rfl
  rw [Cache.openAt, if_pos hpath, htext]
  simp only [hparse]
  rfl

theorem IsOnDisk.of_read (h : c.IsOnDisk t)
    (hread : ∀ content, t.read c.path = .ok content → t'.read c.path = .ok content) :
    c.IsOnDisk t' := by
  obtain ⟨text, htext, hparse⟩ := h
  obtain ⟨content, hcontent, hutf8⟩ := FileTree.readText_eq_ok_iff.1 htext
  exact ⟨text, FileTree.readText_eq_ok_iff.2 ⟨content, hread content hcontent, hutf8⟩, hparse⟩

theorem isHomed_withDirectory (h : c.withDirectory t = .ok t') (ht : t.IsHomed) : t'.IsHomed := by
  rcases withDirectory_cases h with rfl | ⟨above, hmade⟩
  · exact ht
  · exact ht.makeDirectories hmade

/-- A save keeps what is in memory. It leaves something to save unless all of it is on disk. -/
theorem of_save {result : Except Error Unit} (hc : c.files.IsWellFormed) (ht : t.IsHomed)
    (h : c.save t now = (result, c', t')) :
    (c'.path = c.path ∧ c'.fingerprint = c.fingerprint ∧ c'.files = c.files ∧ t'.IsHomed) ∧
      (c.isDirty = false ∧ c' = c ∧ t' = t ∨ c'.isDirty = true ∧ (∃ e, result = .error e) ∨
        c'.isDirty = false ∧ c'.IsOnDisk t') := by
  cases saves_of_save h with
  | clean hclean => exact ⟨⟨rfl, rfl, rfl, ht⟩, .inl ⟨hclean, rfl, rfl⟩⟩
  | unplaced hdirty => exact ⟨⟨rfl, rfl, rfl, ht⟩, .inr (.inl ⟨hdirty, _, rfl⟩)⟩
  | untold hdirty hplace | unwritten hdirty hplace =>
    exact ⟨⟨rfl, rfl, rfl, isHomed_withDirectory hplace ht⟩, .inr (.inl ⟨hdirty, _, rfl⟩)⟩
  | @written t₁ _ v hdirty hplace hv hwrite =>
    have ht₁ := isHomed_withDirectory hplace ht
    refine ⟨⟨rfl, rfl, rfl, ht₁.write hwrite⟩, .inr (.inr ⟨rfl, v.pretty, ?_, ?_⟩)⟩
    · exact FileTree.readText_eq_ok_iff.2 ⟨_, FileTree.read_write ht₁ hwrite, fromUTF8?_toUTF8 _⟩
    · exact parse_pretty_toJson? (c := { c with updatedAt := some now }) hc hv

theorem exists_lookup_of_status {size : Nat} {modified : Timestamp}
    (h : t.status path = .ok (.file size modified)) :
    ∃ loc content, t.lookup loc = some (.file content modified) := by
  obtain ⟨e, hentry, h⟩ := bind_eq_ok_iff.1 h
  obtain ⟨loc, -, hlookup⟩ := FileTree.entry_eq_ok_iff.1 hentry
  cases e with
  | file content found =>
    cases h
    exact ⟨loc, content, hlookup⟩
  | directory | link target => cases h

theorem isOfFile_of_read {stamp : Stamp} (ht : t.HasFileTimes) (h : Stamp.read t path = .ok stamp) :
    stamp.modified.IsOfFile := by
  obtain ⟨found, hfound, h⟩ := bind_eq_ok_iff.1 h
  cases found with
  | directory => cases h
  | file size modified =>
    obtain ⟨hash, _, h⟩ := bind_eq_ok_iff.1 h
    cases h
    have hstatus : t.status path = .ok (.file size modified) := by
      unfold Stamp.status at hfound
      cases hstatus : t.status path with
      | error cause =>
        rw [hstatus] at hfound
        cases hfound
      | ok status =>
        rw [hstatus] at hfound
        cases hfound
        rfl
    obtain ⟨loc, content, hlookup⟩ := exists_lookup_of_status hstatus
    exact ht loc content modified hlookup

/--
What can happen to an open record and the tree around it, but that its file is written by saving
alone.
-/
inductive Step (path : Path) : Cache × FileTree → Cache × FileTree → Prop
  | bound {c : Cache} {t : FileTree} (fingerprint : String) :
      Step path (c, t) (c.bind fingerprint, t)
  | learned {c c' : Cache} {t : FileTree} {file : Path} :
      t.HasFileTimes → c.learn t file = .ok c' → Step path (c, t) (c', t)
  | dropped {c : Cache} {t : FileTree} (file : Path) : Step path (c, t) (c.drop file, t)
  | pruned {c : Cache} {t : FileTree} : Step path (c, t) (c.withoutMissing t, t)
  | saved {c c' : Cache} {t t' : FileTree} {now : Time.Instant} {result : Except Error Unit} :
      c.save t now = (result, c', t') → Step path (c, t) (c', t')
  | changed {c : Cache} {t t' : FileTree} :
      t'.IsHomed → (∀ content, t.read path = .ok content → t'.read path = .ok content) →
      Step path (c, t) (c, t')

/-- What every step keeps: unless there is something to save, all is on disk. -/
structure IsKept (path : Path) (s : Cache × FileTree) : Prop where
  path_eq : s.1.path = path
  wellFormed : s.1.files.IsWellFormed
  homed : s.2.IsHomed
  saved : s.1.isDirty = false → s.1.IsOnDisk s.2

theorem isKept_of_openAt (ht : t.IsHomed) (h : openAt t path = .ok c) : IsKept path (c, t) := by
  unfold Cache.openAt at h
  split at h
  · split at h
    · next text htext =>
      cases hparse : parse path text with
      | error e =>
        rw [hparse] at h
        cases h
      | ok found =>
        rw [hparse] at h
        cases h
        obtain ⟨rfl, -, hfiles⟩ := of_parse hparse
        exact ⟨rfl, hfiles, ht, fun _ => ⟨text, htext, hparse⟩⟩
    · cases h
  · cases h
    exact ⟨rfl, CacheFiles.isWellFormed_empty, ht, nofun⟩

theorem IsKept.bind (h : IsKept path (c, t)) (fingerprint : String) :
    IsKept path (c.bind fingerprint, t) := by
  unfold Cache.bind
  split
  · exact h
  · exact ⟨h.path_eq, CacheFiles.isWellFormed_empty, h.homed, nofun⟩

theorem IsKept.learn (h : IsKept path (c, t)) (ht : t.HasFileTimes) {file : Path}
    (hlearn : c.learn t file = .ok c') : IsKept path (c', t) := by
  obtain ⟨stamp, hstamp, hlearn⟩ := bind_eq_ok_iff.1 hlearn
  cases hlearn
  exact ⟨h.path_eq, h.wellFormed.put (isOfFile_of_read ht hstamp), h.homed, nofun⟩

theorem IsKept.drop (h : IsKept path (c, t)) (file : Path) : IsKept path (c.drop file, t) := by
  unfold Cache.drop
  split
  · exact ⟨h.path_eq, h.wellFormed.filter _, h.homed, nofun⟩
  · exact h

/-- A record that loses no entry is not changed. -/
theorem withoutMissing_of_isDirty (h : (c.withoutMissing t).isDirty = false) :
    c.withoutMissing t = c := by
  obtain ⟨hclean, hsize⟩ := Bool.or_eq_false_iff.1 h
  have hlength : (c.files.filter fun _ e => t.isFile e.path).size = c.files.size := by
    simpa using hsize
  have hfiles : (c.files.filter fun _ e => t.isFile e.path) = c.files :=
    OrderedMap.eq_of_entries (List.filter_sublist.eq_of_length hlength)
  rw [withoutMissing, hfiles]
  simp

theorem IsKept.withoutMissing (h : IsKept path (c, t)) : IsKept path (c.withoutMissing t, t) := by
  refine ⟨h.path_eq, h.wellFormed.filter _, h.homed, fun hclean => ?_⟩
  have hsame := withoutMissing_of_isDirty hclean
  rw [hsame] at hclean ⊢
  exact h.saved hclean

theorem IsKept.save {result : Except Error Unit} (h : IsKept path (c, t))
    (hsave : c.save t now = (result, c', t')) : IsKept path (c', t') := by
  obtain ⟨⟨hpath, -, hfiles, ht'⟩, hcases⟩ := of_save h.wellFormed h.homed hsave
  have hwellFormed : c'.files.IsWellFormed := by
    rw [hfiles]
    exact h.wellFormed
  refine ⟨hpath.trans h.path_eq, hwellFormed, ht', fun hclean => ?_⟩
  rcases hcases with ⟨-, rfl, rfl⟩ | ⟨hdirty, -⟩ | ⟨-, hdisk⟩
  · exact h.saved hclean
  · exact absurd (hclean.symm.trans hdirty) Bool.false_ne_true
  · exact hdisk

theorem IsKept.step {s s' : Cache × FileTree} (h : IsKept path s) (hstep : Step path s s') :
    IsKept path s' := by
  cases hstep with
  | bound fingerprint => exact h.bind fingerprint
  | learned ht hlearn => exact h.learn ht hlearn
  | dropped file => exact h.drop file
  | pruned => exact h.withoutMissing
  | saved hsave => exact h.save hsave
  | changed ht' hread =>
    refine ⟨h.path_eq, h.wellFormed, ht', fun hclean => (h.saved hclean).of_read ?_⟩
    rw [h.path_eq]
    exact hread

/-- What is opened and then changed in any way is kept, or there is something to save. -/
theorem isKept_of_steps {t₀ : FileTree} {c₀ : Cache} {s : Cache × FileTree} (ht₀ : t₀.IsHomed)
    (hopen : openAt t₀ path = .ok c₀)
    (hsteps : Relation.ReflTransGen (Step path) (c₀, t₀) s) : IsKept path s := by
  induction hsteps with
  | refl => exact isKept_of_openAt ht₀ hopen
  | tail _ hstep ih => exact ih.step hstep

/-- After a save that succeeds a record is opened as it is in memory, whatever happened before. -/
theorem reopening_exact {t₀ : FileTree} {c₀ : Cache} (ht₀ : t₀.IsHomed)
    (hopen : openAt t₀ path = .ok c₀)
    (hsteps : Relation.ReflTransGen (Step path) (c₀, t₀) (c, t))
    (hsave : c.save t now = (.ok (), c', t')) :
    c'.fingerprint = c.fingerprint ∧ c'.files = c.files ∧
      ∀ t'' : FileTree, (∀ content, t'.read path = .ok content → t''.read path = .ok content) →
        openAt t'' path = .ok c' := by
  have hkept := isKept_of_steps ht₀ hopen hsteps
  obtain ⟨⟨-, hfingerprint, hfiles, -⟩, hcases⟩ := of_save hkept.wellFormed hkept.homed hsave
  have hkept' := hkept.save hsave
  refine ⟨hfingerprint, hfiles, fun t'' hread => ?_⟩
  have hclean : c'.isDirty = false := by
    rcases hcases with ⟨hclean, rfl, -⟩ | ⟨-, e, he⟩ | ⟨hclean, -⟩
    · exact hclean
    · cases he
    · exact hclean
  have hdisk : c'.IsOnDisk t'' := (hkept'.saved hclean).of_read (by rwa [hkept'.path_eq])
  have hopened := hdisk.openAt
  rwa [hkept'.path_eq] at hopened

section TidyRecord

open World (tidyTree tidyRecord)

theorem save_of_write {v : Json} (hdirty : c.isDirty = true) (hmade : c.withDirectory t = .ok t)
    (hv : toJson? { c with updatedAt := some now } = some v)
    (hwrite : t.write c.path v.pretty.toUTF8 = .ok t') :
    c.save t now = (.ok (), { c with updatedAt := some now, isDirty := false }, t') := by
  rw [Cache.save, if_neg (by simp [hdirty]), hmade]
  dsimp only
  rw [hv]
  dsimp only
  rw [hwrite]

theorem write_tidyTree (content : ByteArray) :
    tidyTree.write ⟨"c.json"⟩ content =
      .ok (tidyTree.putContent [['c', '.', 'j', 's', 'o', 'n']] content) := by
  have hlookup : tidyTree.lookup [['c', '.', 'j', 's', 'o', 'n']] = none := by
    rw [World.lookup_tidyTree]
    rfl
  have hresolve : tidyTree.resolve true ⟨"c.json"⟩ =
      .ok (.absent [['c', '.', 'j', 's', 'o', 'n']] false) := by
    change tidyTree.follow true FileTree.maxLinks [] [['c', '.', 'j', 's', 'o', 'n']] = _
    rw [FileTree.follow, if_neg (by decide), if_neg (by decide)]
    simp [hlookup]
  rw [FileTree.write, hresolve]
  rfl

theorem isHomed_tidyTree : tidyTree.IsHomed := rfl

theorem hasFileTimes_tidyTree : tidyTree.HasFileTimes := by
  intro loc content modified h
  rw [World.lookup_tidyTree] at h
  split at h
  · cases h
    exact ⟨by decide, by decide⟩
  · cases loc <;> cases h

theorem openAt_tidyTree :
    openAt tidyTree ⟨"c.json"⟩ = .ok { path := ⟨"c.json"⟩, isDirty := true } := by
  have hloc : tidyTree.locate ⟨"c.json"⟩ = .error .notFound :=
    World.locate_tidyTree ['c', '.', 'j', 's', 'o', 'n'] rfl (by decide) (by decide)
  exact openAt_of_missing (FileTree.hasPath_of_locate_error hloc)

theorem steps_tidyRecord : Relation.ReflTransGen (Step ⟨"c.json"⟩)
    ({ path := ⟨"c.json"⟩, isDirty := true }, tidyTree) (tidyRecord, tidyTree) := by
  let bound := Cache.bind { path := ⟨"c.json"⟩, isDirty := true } ({} : Config).fingerprint
  have hlearn : bound.learn tidyTree ⟨"A.kt"⟩ = .ok tidyRecord := by
    rw [learn, Stamp.read_of_entry World.entry_tidyTree]
    rfl
  exact .tail (.single (.bound _)) (.learned hasFileTimes_tidyTree hlearn)

theorem exists_save_tidyRecord (now : Time.Instant) :
    ∃ t', tidyRecord.save tidyTree now =
      (.ok (), { tidyRecord with updatedAt := some now, isDirty := false }, t') := by
  have hpath : tidyRecord.path = ⟨"c.json"⟩ :=
    (isKept_of_steps isHomed_tidyTree openAt_tidyTree steps_tidyRecord).path_eq
  have hfiles : tidyRecord.files = CacheFiles.put ∅ ⟨"A.kt"⟩
      ⟨.ofNat "public class A".toUTF8.size, ⟨1, 0⟩, Stamp.hashOf "public class A".toUTF8⟩ := by
    unfold tidyRecord Cache.bind
    split <;> rfl
  obtain ⟨v, hv⟩ : ∃ v, toJson? { tidyRecord with updatedAt := some now } = some v := by
    unfold toJson?
    rw [hfiles]
    exact ⟨_, rfl⟩
  refine ⟨_, save_of_write rfl ?_ hv (by rw [hpath]; exact write_tidyTree _)⟩
  rw [withDirectory, hpath]
  rfl

/-- The record of one file is saved, and then again when there is nothing to save. -/
theorem reopening_exact_tidyRecord : ∃ c' t',
    tidyRecord.save tidyTree .epoch = (.ok (), c', t') ∧ c'.save t' .epoch = (.ok (), c', t') ∧
      c'.files = tidyRecord.files ∧ openAt t' ⟨"c.json"⟩ = .ok c' := by
  obtain ⟨t', hsave⟩ := exists_save_tidyRecord .epoch
  have hagain : ∀ c : Cache, c.isDirty = false → c.save t' .epoch = (.ok (), c, t') := by
    intro c hc
    rw [Cache.save, if_pos (by simp [hc])]
  have hsteps := steps_tidyRecord.tail (.saved hsave)
  obtain ⟨-, -, hopen⟩ := reopening_exact isHomed_tidyTree openAt_tidyTree hsteps (hagain _ rfl)
  exact ⟨_, t', hsave, hagain _ rfl, rfl, hopen t' fun _ h => h⟩

end TidyRecord

end Cache

end ExplicitApi
