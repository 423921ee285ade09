import ExplicitApi.Cache.Codec
import ExplicitApi.Proofs.FileTree.Writing

/-!
Saving a record, and how that can fail. Main statement: a save that fails loses nothing, but may leave
behind a time at which nothing was saved.
-/
namespace ExplicitApi

namespace Cache

variable {c c' : Cache} {t t' : FileTree} {now : Time.Instant} {result : Except Error Unit}
  {e : Error}

/-- A record is begun anew where there is none. -/
theorem openAt_of_missing {path : Path} (h : t.hasPath path = false) :
    openAt t path = .ok { path, isDirty := true } := by
  rw [openAt, if_neg (by simp [h])]

/-- What a save can do to a record and a tree, and with which result. -/
inductive Saves (c : Cache) (t : FileTree) (now : Time.Instant) :
    Except Error Unit → Cache → FileTree → Prop
  | clean : c.isDirty = false → Saves c t now (.ok ()) c t
  | unplaced {cause : IoError} : c.isDirty = true →
      c.withDirectory t = .error (.directoryNotMade cause) →
      Saves c t now (.error (.cache (.directoryNotMade cause))) c t
  | untold {t' : FileTree} : c.isDirty = true → c.withDirectory t = .ok t' →
      toJson? { c with updatedAt := some now } = none →
      Saves c t now (.error (.cache .timeBeforeEpoch)) { c with updatedAt := some now } t'
  | unwritten {t' : FileTree} {v : Json} {cause : IoError} : c.isDirty = true →
      c.withDirectory t = .ok t' → toJson? { c with updatedAt := some now } = some v →
      t'.write c.path v.pretty.toUTF8 = .error cause →
      Saves c t now (.error (.cache (.unwritable cause))) { c with updatedAt := some now } t'
  | written {t₁ t' : FileTree} {v : Json} : c.isDirty = true →
      c.withDirectory t = .ok t₁ → toJson? { c with updatedAt := some now } = some v →
      t₁.write c.path v.pretty.toUTF8 = .ok t' →
      Saves c t now (.ok ()) { c with updatedAt := some now, isDirty := false } t'

theorem withDirectory_cases (h : c.withDirectory t = .ok t') :
    t' = t ∨ ∃ above, t.makeDirectories above = .ok t' := by
  unfold withDirectory at h
  split at h
  · next above _ =>
    cases hmade : t.makeDirectories above with
    | error cause =>
      rw [hmade] at h
      cases h
    | ok made =>
      rw [hmade] at h
      cases h
      exact .inr ⟨above, hmade⟩
  · cases h
    exact .inl rfl

/-- What goes wrong with the directory of a record is that it is not made. -/
theorem cause_of_withDirectory {cause : CacheError} (h : c.withDirectory t = .error cause) :
    ∃ io, cause = .directoryNotMade io := by
  unfold withDirectory at h
  split at h
  · next above _ =>
    cases hmade : t.makeDirectories above with
    | error io =>
      rw [hmade] at h
      cases h
      exact ⟨io, rfl⟩
    | ok made =>
      rw [hmade] at h
      cases h
  · cases h

theorem saves_of_save (h : c.save t now = (result, c', t')) : c.Saves t now result c' t' := by
  unfold save at h
  split at h
  · next hclean =>
    cases h
    exact .clean (by simpa using hclean)
  · next hdirty =>
    have hdirty : c.isDirty = true := by simpa using hdirty
    split at h
    · next cause hplace =>
      cases h
      obtain ⟨io, rfl⟩ := cause_of_withDirectory hplace
      exact .unplaced hdirty hplace
    · next t₁ hplace =>
      dsimp only at h
      split at h
      · next hnone =>
        cases h
        exact .untold hdirty hplace hnone
      · next v hv =>
        split at h
        · next cause hwrite =>
          cases h
          exact .unwritten hdirty hplace hv hwrite
        · next t₂ hwrite =>
          cases h
          exact .written hdirty hplace hv hwrite

/-- Making the directory of a record changes nothing else. -/
theorem lookup_withDirectory (h : c.withDirectory t = .ok t') (loc : Location) :
    t'.lookup loc = t.lookup loc ∨ t'.lookup loc = some .directory := by
  rcases withDirectory_cases h with rfl | ⟨above, hmade⟩
  · exact .inl rfl
  · exact FileTree.lookup_makeDirectories hmade loc

theorem file_of_withDirectory (h : c.withDirectory t = .ok t') {loc : Location}
    {content : ByteArray} {modified : Timestamp}
    (hlookup : t'.lookup loc = some (.file content modified)) :
    t.lookup loc = some (.file content modified) := by
  rcases lookup_withDirectory h loc with heq | hdirectory
  · rwa [heq] at hlookup
  · cases hlookup.symm.trans hdirectory

/--
A save that fails leaves what is recorded and still to be saved; only the time may be that of the
failed save.
-/
theorem save_failed_exact (h : c.save t now = (.error e, c', t')) :
    c.isDirty = true ∧ c'.isDirty = true ∧ c'.path = c.path ∧ c'.fingerprint = c.fingerprint ∧
      c'.files = c.files ∧
      ((∃ cause, e = .cache (.directoryNotMade cause)) → c' = c) ∧
      ((∀ cause, e ≠ .cache (.directoryNotMade cause)) → c' = { c with updatedAt := some now }) := by
  cases saves_of_save h with
  | unplaced hdirty hplace =>
    exact ⟨hdirty, hdirty, rfl, rfl, rfl, fun _ => rfl, fun hother => absurd rfl (hother _)⟩
  | untold hdirty hplace hnone | unwritten hdirty hplace hv hwrite =>
    refine ⟨hdirty, hdirty, rfl, rfl, rfl, ?_, fun _ => rfl⟩
    rintro ⟨cause, hcause⟩
    cases hcause

def misplaced : Cache := { path := ⟨"sub/"⟩, isDirty := true }

theorem resolve_misplaced :
    FileTree.empty.resolve true misplaced.path = .ok (.absent [['s', 'u', 'b']] true) := by
  change FileTree.empty.follow true FileTree.maxLinks [] [['s', 'u', 'b'], []] = _
  rw [FileTree.follow, if_neg (by decide), if_neg (by decide)]
  rfl

theorem openAt_misplaced : openAt .empty misplaced.path = .ok misplaced := by
  have hloc : FileTree.empty.locate misplaced.path = .error .notFound := by
    rw [FileTree.locate, resolve_misplaced]
    rfl
  exact openAt_of_missing (FileTree.hasPath_of_locate_error hloc)

theorem save_misplaced (now : Time.Instant) :
    misplaced.save .empty now = (.error (.cache (.unwritable .isDirectory)),
      { misplaced with updatedAt := some now }, .empty) := by
  have hplace : misplaced.withDirectory .empty = .ok .empty := rfl
  have htext : ∃ v, toJson? { misplaced with updatedAt := some now } = some v := ⟨_, rfl⟩
  obtain ⟨v, hv⟩ := htext
  have hwrite : FileTree.empty.write misplaced.path v.pretty.toUTF8 = .error .isDirectory := by
    rw [FileTree.write, resolve_misplaced]
    rfl
  rw [save, if_neg (by decide), hplace]
  simp only [hv, hwrite]

theorem save_failed_exact_misplaced :
    ∃ e c' t', misplaced.save .empty .epoch = (.error e, c', t') ∧ c'.isDirty = true ∧
      c'.files = misplaced.files ∧ c'.fingerprint = misplaced.fingerprint ∧
      c' = { misplaced with updatedAt := some .epoch } := by
  obtain ⟨-, hdirty, -, hfingerprint, hfiles, -, hnoted⟩ := save_failed_exact (save_misplaced .epoch)
  exact ⟨_, _, _, save_misplaced .epoch, hdirty, hfiles, hfingerprint, hnoted nofun⟩

/-- After a first save that fails, a record that was never saved has a time of its last save. -/
theorem save_failed_noted :
    openAt .empty misplaced.path = .ok misplaced ∧ misplaced.updatedAt = none ∧
      ∃ e c' t', misplaced.save .empty .epoch = (.error e, c', t') ∧ c'.updatedAt = some .epoch :=
  ⟨openAt_misplaced, rfl, _, _, _, save_misplaced .epoch, rfl⟩

end Cache

end ExplicitApi
