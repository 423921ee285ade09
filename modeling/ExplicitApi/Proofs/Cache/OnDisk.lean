import ExplicitApi.Proofs.Cache.Saving
import ExplicitApi.Proofs.Cache.Soundness
import ExplicitApi.Proofs.Json.RoundTrip

/-!
Records on disk. Main statements: a record read back is as sound as the one that was saved, and no
configuration would change the text that it is saved as.
-/
namespace ExplicitApi

namespace Json

/-- Whether quotes or braces stand behind each line break and its indentation. -/
def BreaksToMark : List Char → Prop
  | [] => True
  | c :: s => (c = '\n' → ∃ d ∈ (s.dropWhile Text.isBlank).head?, d ∈ ['"', '\x7b', '\x7d']) ∧
      BreaksToMark s

theorem BreaksToMark.append {s t : List Char} (hs : BreaksToMark s) (ht : BreaksToMark t) :
    BreaksToMark (s ++ t) := by
  induction s with
  | nil => exact ht
  | cons c s ih =>
    refine ⟨fun hc => ?_, ih hs.2⟩
    obtain ⟨d, hd, hmark⟩ := hs.1 hc
    refine ⟨d, ?_, hmark⟩
    rw [List.append_eq, List.dropWhile_append]
    split
    · next hnil =>
      rw [List.isEmpty_iff.1 hnil] at hd
      cases hd
    · rw [List.head?_append, hd]
      rfl

theorem breaksToMark_of_notMem {s : List Char} (hs : '\n' ∉ s) : BreaksToMark s := by
  induction s with
  | nil => trivial
  | cons c s ih =>
    rw [List.mem_cons, not_or] at hs
    exact ⟨fun hc => absurd hc.symm hs.1, ih hs.2⟩

theorem breaksToMark_newLine (level : Nat) {d : Char} (hd : d ∈ ['"', '\x7b', '\x7d'])
    {s : List Char} (hs : BreaksToMark (d :: s)) : BreaksToMark (newLine level ++ d :: s) := by
  have hblank : ∀ c ∈ List.replicate (2 * level) ' ', Text.isBlank c = true := by
    intro c hc
    rw [List.eq_of_mem_replicate hc]
    rfl
  have hspace : '\n' ∉ List.replicate (2 * level) ' ' := fun h => by
    cases List.eq_of_mem_replicate h
  have hmark : Text.isBlank d = false := by
    simp only [List.mem_cons, List.not_mem_nil, or_false] at hd
    rcases hd with rfl | rfl | rfl <;> rfl
  refine ⟨fun _ => ⟨d, ?_, hd⟩, (breaksToMark_of_notMem hspace).append hs⟩
  rw [List.append_eq, List.dropWhile_append_of_pos hblank,
    List.dropWhile_cons_of_neg (by simp [hmark])]
  rfl

theorem newline_notMem_escape (c : Char) : '\n' ∉ escape c := by
  have hdigit : ∀ d < 16, Nat.digitChar d ≠ '\n' := by decide
  have hlast := (hdigit (c.toNat % 16) (by omega)).symm
  by_cases hc : '\n' = c
  · rw [← hc]
    decide
  · unfold escape
    split_ifs <;> simp [hlast, hc]

theorem newline_notMem_stringText (s : String) : '\n' ∉ stringText s := by
  simp [stringText, newline_notMem_escape]

theorem breaksToMark_memberText {level : Nat} {v : Json} {members : List (String × Json)}
    (hv : BreaksToMark (prettyAt (level + 1) v))
    (hmembers : BreaksToMark (prettyMembers level members)) (name : String) :
    BreaksToMark (newLine (level + 1) ++ memberText level name v members) := by
  have hname : BreaksToMark (stringText name ++ [':', ' ']) :=
    (breaksToMark_of_notMem (newline_notMem_stringText name)).append
      (breaksToMark_of_notMem (by decide))
  exact breaksToMark_newLine (level + 1) (by decide) ((hname.append hv).append hmembers)

theorem breaksToMark_prettyMembers {level : Nat} {members : List (String × Json)}
    (h : ∀ m ∈ members, BreaksToMark (prettyAt (level + 1) m.2)) :
    BreaksToMark (prettyMembers level members) := by
  induction members with
  | nil => exact breaksToMark_newLine level (by decide) ⟨by decide, trivial⟩
  | cons m members ih =>
    obtain ⟨name, v⟩ := m
    have htext : prettyMembers level ((name, v) :: members) =
        ',' :: (newLine (level + 1) ++ memberText level name v members) := by
      simp [prettyMembers, memberText]
    have hrest := ih fun m hm => h m (List.mem_cons_of_mem _ hm)
    rw [htext]
    have hmember := breaksToMark_memberText (h _ List.mem_cons_self) hrest name
    exact ⟨fun h => absurd h (by decide), hmember⟩

/-- Behind a line break in an object's text stand quotes or braces if that is so for its values. -/
theorem breaksToMark_object {level : Nat} {members : List (String × Json)}
    (h : ∀ m ∈ members, BreaksToMark (prettyAt (level + 1) m.2)) :
    BreaksToMark (prettyAt level (.object members)) := by
  cases members with
  | nil => exact breaksToMark_of_notMem (by simp [prettyAt])
  | cons m members =>
    obtain ⟨name, v⟩ := m
    have htext : prettyAt level (.object ((name, v) :: members)) =
        '\x7b' :: (newLine (level + 1) ++ memberText level name v members) := by
      simp [prettyAt, memberText]
    have hrest := breaksToMark_prettyMembers fun m hm => h m (List.mem_cons_of_mem _ hm)
    rw [htext]
    have hmember := breaksToMark_memberText (h _ List.mem_cons_self) hrest name
    exact ⟨fun h => absurd h (by decide), hmember⟩

theorem breaksToMark_string (level : Nat) (s : String) :
    BreaksToMark (prettyAt level (.string s)) := by
  rw [prettyAt]
  exact breaksToMark_of_notMem (newline_notMem_stringText s)

theorem breaksToMark_natural (level : Nat) (n : UInt64) :
    BreaksToMark (prettyAt level (.number (.natural n))) := by
  have htext : prettyAt level (.number (.natural n)) = Nat.toDigits 10 n.toNat := by
    simp [prettyAt, Number.text]
  rw [htext]
  exact breaksToMark_of_notMem (Text.notMem_toDigits rfl _)

theorem BreaksToMark.of_append {s t : List Char} (h : BreaksToMark (s ++ t)) : BreaksToMark t := by
  induction s with
  | nil => exact h
  | cons c s ih => exact ih h.2

end Json

namespace Qualify

open Json (BreaksToMark)

theorem not_opensDeclaration_of_mark (kind : Declaration) {s : List Char}
    (hs : ∀ d ∈ s.head?, d ∈ ['"', '\x7b', '\x7d']) : ¬OpensDeclaration kind s := by
  rintro ⟨keyword, hkeyword, gap, c, more, rfl, -⟩
  have hletter : ∀ keyword ∈ kind.keywords, (keyword.toList.head?.any fun d =>
      d ∉ ['"', '\x7b', '\x7d']) = true := by
    cases kind <;> decide
  obtain ⟨d, hd, hnot⟩ := Option.any_eq_true _ _ |>.1 (hletter keyword hkeyword)
  exact of_decide_eq_true hnot (hs d (by rw [List.head?_append, hd]; rfl))

/-- A line that follows a break and begins with a mark declares nothing. -/
theorem not_isDeclarationLine_of_breaksToMark {rules : Rules} {lines : List (List Char)}
    (h : BreaksToMark ('\n' :: joinLines lines)) :
    ∀ line ∈ lines, ¬IsDeclarationLine rules line := by
  induction lines with
  | nil => exact nofun
  | cons first rest ih =>
    rw [joinLines_cons] at h
    intro line hline
    rcases List.mem_cons.1 hline with rfl | hline
    · rw [isDeclarationLine_iff]
      rintro ⟨kind, -, hopens⟩
      refine not_opensDeclaration_of_mark kind (fun d hd => ?_) hopens
      obtain ⟨d', hd', hmark⟩ := h.1 rfl
      rw [List.append_assoc, List.dropWhile_append] at hd'
      split at hd'
      · next hnil =>
        rw [List.isEmpty_iff.1 hnil] at hd
        cases hd
      · rw [List.head?_append, hd] at hd'
        cases hd'
        exact hmark
    · refine ih ?_ line hline
      cases rest with
      | nil => cases hline
      | cons second rest =>
        have hbehind := h.2
        rw [List.append_assoc] at hbehind
        exact hbehind.of_append

end Qualify

/-- No qualifier goes into an object's text that breaks to marks. -/
theorem Json.insertions_pretty_object (rules : Rules) {members : List (String × Json)}
    (h : BreaksToMark (prettyAt 0 (.object members))) :
    (qualify rules (Json.object members).pretty).insertions = [] := by
  refine insertions_eq_nil_of_lines ?_
  have hlines : Qualify.joinLines ((Json.object members).pretty.toList.splitOn '\n') =
      prettyAt 0 (.object members) := by
    rw [Qualify.joinLines, List.intercalate_splitOn, pretty, String.toList_ofList]
  have hbrace : ∃ s, prettyAt 0 (.object members) = '\x7b' :: s := by
    cases members <;> exact ⟨_, rfl⟩
  obtain ⟨s, hs⟩ := hbrace
  refine Qualify.not_isDeclarationLine_of_breaksToMark ⟨fun _ => ⟨'\x7b', ?_, by decide⟩, ?_⟩
  · rw [hlines, hs]
    rfl
  · rw [hlines]
    exact h

/-- What the text of a record's value needs to be read back and to be left alone. -/
def Json.IsPlain (v : Json) : Prop :=
  v.HasNaturals ∧ ∀ level, BreaksToMark (prettyAt level v)

namespace Json

theorem isPlain_ofUInt64 (n : UInt64) : IsPlain (.ofUInt64 n) :=
  ⟨hasNaturals_ofUInt64 n, fun level => breaksToMark_natural level n⟩

theorem isPlain_string (s : String) : IsPlain (.string s) :=
  ⟨hasNaturals_string s, fun level => breaksToMark_string level s⟩

theorem isPlain_ofOption (s : Option String) : IsPlain (.ofOption s) := by
  refine ⟨hasNaturals_ofOption s, fun level => ?_⟩
  cases s with
  | none => exact breaksToMark_of_notMem (by simp [ofOption, prettyAt])
  | some s => exact breaksToMark_string level s

theorem isPlain_object {members : List (String × Json)} (h : ∀ m ∈ members, m.2.IsPlain) :
    IsPlain (.object members) :=
  ⟨hasNaturals_object fun m hm => (h m hm).1,
    fun level => breaksToMark_object fun m hm => (h m hm).2 (level + 1)⟩

end Json

/-- A record is read from the members of an object one after another. -/
theorem Json.exists_of_decodeRecord {σ α : Type} {record : Json.Record σ} {name : String}
    {get : σ → Option α} {set : σ → α → σ} {value : Json.Decoder α} {v : Json}
    {members : List (String × Json)} {s s' : σ}
    (hfield : record.fields.find? (fun f => f.name == name) =
      some (.ofDecoder name get set value))
    (h : decodeRecord record s (.object ((name, v) :: members)) = .ok s') :
    ∃ x, value v = .ok x ∧ decodeRecord record (set s x) (.object members) = .ok s' := by
  rw [decodeRecord, List.foldlM_cons, bind_eq_ok_iff] at h
  obtain ⟨next, hnext, h⟩ := h
  simp only [hfield, Json.Field.ofDecoder] at hnext
  split at hnext
  · cases hnext
  · cases hvalue : value v with
    | error m =>
      rw [hvalue] at hnext
      cases hnext
    | ok x =>
      rw [hvalue] at hnext
      cases hnext
      exact ⟨x, rfl, h⟩

namespace Stamp

theorem exists_of_toJson? {stamp : Stamp} {v : Json} (h : stamp.toJson? = some v) :
    ∃ seconds nanoseconds : UInt64, v = .object [("size", .ofUInt64 stamp.size),
      ("modified", .object [("secs_since_epoch", .ofUInt64 seconds),
        ("nanos_since_epoch", .ofUInt64 nanoseconds)]),
      ("sha256", .string stamp.sha256)] := by
  obtain ⟨modified, hmodified, rfl⟩ := Option.map_eq_some_iff.1 h
  unfold Timestamp.toJson? at hmodified
  split at hmodified
  · cases hmodified
  · cases hmodified
    exact ⟨_, _, rfl⟩

theorem isPlain_of_toJson? {stamp : Stamp} {v : Json} (h : stamp.toJson? = some v) :
    v.IsPlain := by
  obtain ⟨seconds, nanoseconds, rfl⟩ := exists_of_toJson? h
  have htime : Json.IsPlain (.object [("secs_since_epoch", .ofUInt64 seconds),
      ("nanos_since_epoch", .ofUInt64 nanoseconds)]) :=
    Json.isPlain_object (by simp [Json.isPlain_ofUInt64])
  exact Json.isPlain_object (by simp [Json.isPlain_ofUInt64, Json.isPlain_string, htime])

/-- Reading a stamp back gives its hash. -/
theorem sha256_of_ofJson {stamp stamp' : Stamp} {v : Json} (h : stamp.toJson? = some v)
    (hread : Stamp.ofJson v = .ok stamp') : stamp'.sha256 = stamp.sha256 := by
  obtain ⟨seconds, nanoseconds, rfl⟩ := exists_of_toJson? h
  rw [Stamp.ofJson, bind_eq_ok_iff] at hread
  obtain ⟨p, hp, hread⟩ := hread
  obtain ⟨size, -, hp⟩ := Json.exists_of_decodeRecord rfl hp
  obtain ⟨modified, -, hp⟩ := Json.exists_of_decodeRecord rfl hp
  obtain ⟨hash, hhash, hp⟩ := Json.exists_of_decodeRecord rfl hp
  cases hp
  cases hhash
  cases hread
  rfl

end Stamp

namespace Cache

variable {s : Scope} {c c' : Cache} {v : Json}

theorem exists_of_toJson? (h : c.toJson? = some v) :
    ∃ updatedAt files, v = .object [("version", .ofUInt32 version),
      ("fingerprint", .string c.fingerprint), ("updated_at", .ofOption updatedAt),
      ("files", .object files)] ∧
        ∀ m ∈ files, ∃ e ∈ c.files.values, e.stamp.toJson? = some m.2 := by
  simp only [toJson?, Option.bind_eq_bind, Option.bind_eq_some_iff, Option.pure_def,
    Option.some.injEq] at h
  obtain ⟨files, hfiles, rfl⟩ := h
  refine ⟨_, files, rfl, fun m hm => ?_⟩
  obtain ⟨e, he, hmember⟩ := exists_of_mem_mapM hfiles m hm
  obtain ⟨stamp, hstamp, rfl⟩ := Option.map_eq_some_iff.1 hmember
  exact ⟨e, he, hstamp⟩

theorem isPlain_of_toJson? (h : c.toJson? = some v) : v.IsPlain := by
  obtain ⟨updatedAt, files, rfl, hfiles⟩ := exists_of_toJson? h
  have hplain : Json.IsPlain (.object files) := by
    refine Json.isPlain_object fun m hm => ?_
    obtain ⟨e, -, hstamp⟩ := hfiles m hm
    exact Stamp.isPlain_of_toJson? hstamp
  have hversion : Json.IsPlain (.ofUInt32 version) := Json.isPlain_ofUInt64 _
  refine Json.isPlain_object ?_
  simp [hplain, hversion, Json.isPlain_string, Json.isPlain_ofOption]

/-- No configuration would change the text of a record. -/
theorem accepts_of_toJson? (h : c.toJson? = some v) (rules : Rules) :
    rules.Accepts v.pretty.toUTF8 := by
  have hplain := isPlain_of_toJson? h
  obtain ⟨updatedAt, files, rfl, -⟩ := exists_of_toJson? h
  exact Rules.accepts_toUTF8.2 (Json.insertions_pretty_object rules (hplain.2 0))

theorem Contents.stamp_of_decodeFiles {members : List (String × Json)} {files : CacheFiles}
    (h : decodeFiles (.object members) = .ok files) :
    ∀ e ∈ files.values, ∃ m ∈ members, Stamp.ofJson m.2 = .ok e.stamp := by
  refine of_foldlM (P := fun files : CacheFiles => ∀ e ∈ files.values, ∃ m ∈ members,
    Stamp.ofJson m.2 = .ok e.stamp) h ?_ ?_
  · exact nofun
  · intro m hm files files' hfiles hput e he
    obtain ⟨stamp, hstamp, hput⟩ := bind_eq_ok_iff.1 hput
    cases hput
    rcases mem_values_put he with hnew | hold
    · exact ⟨m, hm, by rw [hnew]; exact hstamp⟩
    · exact hfiles e hold

/-- A record read back has the fingerprint of the saved one and no hash that was not saved. -/
theorem parse_pretty (h : c.toJson? = some v) {path : Path}
    (hparse : parse path v.pretty = .ok c') :
    c'.fingerprint = c.fingerprint ∧
      ∀ e' ∈ c'.files.values, ∃ e ∈ c.files.values, e.stamp.sha256 = e'.stamp.sha256 := by
  have hread := Json.parse?_pretty (isPlain_of_toJson? h).1
  obtain ⟨updatedAt, files, rfl, hfiles⟩ := exists_of_toJson? h
  simp only [parse, hread] at hparse
  split at hparse
  · cases hparse
  · next contents hcontents =>
    split at hparse
    · cases hparse
    · cases hparse
      rw [Contents.ofJson, bind_eq_ok_iff] at hcontents
      obtain ⟨p, hp, hcontents⟩ := hcontents
      obtain ⟨number, -, hp⟩ := Json.exists_of_decodeRecord rfl hp
      obtain ⟨fingerprint, hfingerprint, hp⟩ := Json.exists_of_decodeRecord rfl hp
      obtain ⟨time, -, hp⟩ := Json.exists_of_decodeRecord rfl hp
      obtain ⟨decoded, hdecoded, hp⟩ := Json.exists_of_decodeRecord rfl hp
      cases hp
      cases hfingerprint
      cases hcontents
      refine ⟨rfl, fun e' he' => ?_⟩
      obtain ⟨m, hm, hstamp'⟩ := Contents.stamp_of_decodeFiles hdecoded e' he'
      obtain ⟨e, he, hstamp⟩ := hfiles m hm
      exact ⟨e, he, (Stamp.sha256_of_ofJson hstamp hstamp').symm⟩

def IsSaved (s : Scope) (content : ByteArray) : Prop :=
  ∃ (c : Cache) (v : Json), c.IsSound s ∧ c.toJson? = some v ∧ content = v.pretty.toUTF8

theorem IsSaved.accepts {content : ByteArray} (h : IsSaved s content) (rules : Rules) :
    rules.Accepts content := by
  obtain ⟨c, v, -, hv, rfl⟩ := h
  exact accepts_of_toJson? hv rules

/-- A record that is opened is sound if its file holds what was saved. -/
theorem isSound_of_openAt {t : FileTree} {path : Path}
    (hsaved : ∀ content, t.read path = .ok content → IsSaved s content)
    (h : openAt t path = .ok c) : c.IsSound s := by
  unfold openAt at h
  split at h
  · split at h
    · next text htext =>
      obtain ⟨content, hread, hcontent⟩ := FileTree.readText_eq_ok_iff.1 htext
      obtain ⟨saved, v, hsound, hv, rfl⟩ := hsaved content hread
      rw [fromUTF8?_toUTF8] at hcontent
      cases hcontent
      cases hparse : parse path v.pretty with
      | error e =>
        rw [hparse] at h
        cases h
      | ok found =>
        rw [hparse] at h
        cases h
        obtain ⟨hfingerprint, hfiles⟩ := parse_pretty hv hparse
        exact hsound.of_subset hfingerprint hfiles
    · cases h
  · cases h
    exact isSound_of_isEmpty rfl

/-- Saving keeps a record sound, and writes nothing but the text of a sound record. -/
theorem IsSound.save {t t' : FileTree} {now : Time.Instant} {result : Except Error Unit}
    (hc : c.IsSound s) (h : c.save t now = (result, c', t')) :
    c'.fingerprint = c.fingerprint ∧ c'.IsSound s ∧
      ∀ loc content modified, t'.lookup loc = some (.file content modified) →
        t.lookup loc = some (.file content modified) ∨ IsSaved s content := by
  cases saves_of_save h with
  | clean | unplaced => exact ⟨rfl, hc, fun _ _ _ hlookup => .inl hlookup⟩
  | untold _ hplace | unwritten _ hplace =>
    exact ⟨rfl, hc, fun _ _ _ hlookup => .inl (file_of_withDirectory hplace hlookup)⟩
  | @written t₁ _ v _ hplace hv hwrite =>
    refine ⟨rfl, hc, fun loc content modified hlookup => ?_⟩
    rcases FileTree.lookup_write hwrite loc with heq | ⟨m, hnew⟩
    · exact .inl (file_of_withDirectory hplace (heq ▸ hlookup))
    · cases hlookup.symm.trans hnew
      exact .inr ⟨{ c with updatedAt := some now }, v, hc, hv, rfl⟩

end Cache

end ExplicitApi
