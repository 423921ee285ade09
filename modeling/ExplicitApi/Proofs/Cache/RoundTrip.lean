import ExplicitApi.Proofs.Cache.OnDisk
import ExplicitApi.Proofs.Json.Records

/-!
Reading back a record. Main statement: the text that a record is saved as is read as that record,
with every entry it had.
-/
namespace ExplicitApi

namespace OrderedMap

variable {κ ν : Type} [Ord κ] [Std.OrientedOrd κ] {k : κ} {v : ν} {l : List (κ × ν)}

/-- A key behind all others is put at the end. -/
theorem insertEntry_of_forall_lt (h : ∀ e ∈ l, compare e.1 k = .lt) :
    insertEntry k v l = l ++ [(k, v)] := by
  induction l with
  | nil => rfl
  | cons e l ih =>
    obtain ⟨hfirst, hrest⟩ := List.forall_mem_cons.1 h
    rw [insertEntry, Std.OrientedCmp.gt_of_lt hfirst, ih hrest]
    rfl

omit [Std.OrientedOrd κ] in
theorem eq_of_entries {m m' : OrderedMap κ ν} (h : m.entries = m'.entries) : m = m' := by
  cases m
  cases m'
  cases h
  rfl

omit [Std.OrientedOrd κ] in
theorem find?_of_forall_lt {m : OrderedMap κ ν} (h : ∀ e ∈ m.entries, compare e.1 k = .lt) :
    m.find? k = none := by
  rw [find?, List.find?_eq_none.2 fun e he => by simp [h e he]]
  rfl

end OrderedMap

/-- Whether a time is one that the system has for files: its seconds fit 64 bits with a sign. -/
structure Timestamp.IsOfFile (t : Timestamp) : Prop where
  seconds : t.seconds < 2 ^ 63
  nanoseconds : t.nanoseconds < 10 ^ 9

theorem Timestamp.ofJson_toJson? {t : Timestamp} {v : Json} (ht : t.IsOfFile)
    (h : t.toJson? = some v) : Timestamp.ofJson v = .ok t := by
  obtain ⟨seconds, nanoseconds⟩ := t
  obtain ⟨hseconds, hnanoseconds⟩ := ht
  dsimp only at hseconds hnanoseconds
  unfold toJson? at h
  split at h
  · cases h
  · next hpositive =>
    obtain ⟨n, rfl⟩ := Int.eq_ofNat_of_zero_le (Int.not_lt.1 hpositive)
    cases h
    have hn : (UInt64.ofNat (n : Int).toNat).toNat = n := by
      rw [Int.toNat_natCast, UInt64.toNat_ofNat']
      omega
    have hm : (UInt64.ofNat nanoseconds).toNat = nanoseconds := by
      rw [UInt64.toNat_ofNat']
      omega
    have hfirst : Json.decodeUnsigned 64 (.ofUInt64 (.ofNat (n : Int).toNat)) = .ok n := by
      rw [Json.decodeUnsigned_ofUInt64 (UInt64.toNat_lt _), hn]
    have hsecond : Json.decodeUnsigned 32 (.ofUInt64 (.ofNat nanoseconds)) = .ok nanoseconds := by
      rw [Json.decodeUnsigned_ofUInt64 (by rw [hm]; omega), hm]
    have hcarry : n + nanoseconds / 1000000000 = n := by omega
    have hrest : nanoseconds % 1000000000 = nanoseconds := by omega
    have hhalf : ¬UInt64.size / 2 ≤ n := by
      have hsize : UInt64.size / 2 = 2 ^ 63 := rfl
      omega
    have hwhole : ¬UInt64.size ≤ n := by
      have hsize : UInt64.size = 2 ^ 64 := rfl
      omega
    rw [ofJson, Json.decodeRecord_cons rfl rfl hfirst, Json.decodeRecord_cons rfl rfl hsecond]
    simp only [Json.decodeRecord, List.foldlM_nil, pure_bind, Json.required, ok_bind, hcarry, hrest]
    rw [if_neg hwhole, if_neg hhalf]
    rfl

theorem Stamp.ofJson_toJson? {stamp : Stamp} {v : Json} (ht : stamp.modified.IsOfFile)
    (h : stamp.toJson? = some v) : Stamp.ofJson v = .ok stamp := by
  obtain ⟨modified, hmodified, rfl⟩ := Option.map_eq_some_iff.1 h
  have hsize : Json.decodeUnsigned 64 (.ofUInt64 stamp.size) = .ok stamp.size.toNat :=
    Json.decodeUnsigned_ofUInt64 (UInt64.toNat_lt stamp.size)
  have htime := Timestamp.ofJson_toJson? ht hmodified
  have hhash : Json.decodeString (.string stamp.sha256) = .ok stamp.sha256 := rfl
  rw [ofJson, Json.decodeRecord_cons rfl rfl hsize, Json.decodeRecord_cons rfl rfl htime,
    Json.decodeRecord_cons rfl rfl hhash]
  simp only [Json.decodeRecord, List.foldlM_nil, pure_bind, Json.required, ok_bind,
    UInt64.ofNat_toNat]
  rfl

def CacheFiles.IsWellFormed (files : CacheFiles) : Prop :=
  ∀ m ∈ files.entries, m.2.path.components = m.1 ∧ m.2.stamp.modified.IsOfFile

namespace Cache

def memberOf (e : CacheEntry) : Option (String × Json) :=
  e.stamp.toJson?.map fun stamp => (e.path.spelling, stamp)

theorem put_of_forall_lt {files : CacheFiles} {path : Path} (stamp : Stamp)
    (h : ∀ e ∈ files.entries, compare e.1 path.components = .lt) :
    (files.put path stamp).entries = files.entries ++ [(path.components, ⟨path, stamp⟩)] := by
  have hnew : files.find? path.components = none := OrderedMap.find?_of_forall_lt h
  rw [CacheFiles.put, hnew]
  exact OrderedMap.insertEntry_of_forall_lt h

/-- Entries that were written in the order of their keys are put back one behind another. -/
theorem foldlM_memberOf (front : CacheFiles) {back : List (List Path.Component × CacheEntry)}
    (hincreasing : (front.entries ++ back).Pairwise fun a b => compare a.1 b.1 = .lt)
    (hback : ∀ m ∈ back, m.2.path.components = m.1 ∧ m.2.stamp.modified.IsOfFile)
    {members : List (String × Json)} (h : (back.map Prod.snd).mapM memberOf = some members) :
    ∃ files : CacheFiles, files.entries = front.entries ++ back ∧
      members.foldlM (fun files (name, v) => do return files.put ⟨name⟩ (← Stamp.ofJson v)) front =
        Except.ok files := by
  induction back generalizing front members with
  | nil =>
    cases h
    exact ⟨front, (List.append_nil _).symm, rfl⟩
  | cons entry back ih =>
    obtain ⟨k, path, stamp⟩ := entry
    obtain ⟨⟨hkey, htime⟩, hrest⟩ := List.forall_mem_cons.1 hback
    dsimp only at hkey htime
    subst hkey
    simp only [List.map_cons, List.mapM_cons, Option.bind_eq_bind, Option.bind_eq_some_iff,
      Option.pure_def, Option.some.injEq] at h
    obtain ⟨member, hmember, members, hmembers, rfl⟩ := h
    obtain ⟨v, hv, rfl⟩ := Option.map_eq_some_iff.1 hmember
    have hlt : ∀ e ∈ front.entries, compare e.1 path.components = .lt := fun e he =>
      (List.pairwise_append.1 hincreasing).2.2 e he _ List.mem_cons_self
    have hput := put_of_forall_lt stamp hlt
    have hmove : (front.put path stamp).entries ++ back =
        front.entries ++ (path.components, ⟨path, stamp⟩) :: back := by
      rw [hput, List.append_assoc]
      rfl
    obtain ⟨files, hfiles, hfold⟩ :=
      ih (front.put path stamp) (by rwa [hmove]) hrest hmembers
    refine ⟨files, hfiles.trans hmove, ?_⟩
    simp only [List.foldlM_cons, Stamp.ofJson_toJson? htime hv, ok_bind, pure_bind]
    exact hfold

variable {c : Cache} {v : Json}

theorem decodeUpdatedAt (updatedAt : Option Time.Instant) :
    Json.decodeOption Json.decodeTime (.ofOption (updatedAt.map (·.text "Z"))) = .ok updatedAt := by
  cases updatedAt with
  | none => rfl
  | some t =>
    have hread := Json.decodeTime_text t.toMoment
    rw [Time.Instant.settle_toMoment] at hread
    exact congrArg (Except.map some) hread

/-- The text of a record is read as that record, with nothing to save. -/
theorem parse_pretty_toJson? (hc : c.files.IsWellFormed) (h : c.toJson? = some v) :
    parse c.path v.pretty = .ok { c with isDirty := false } := by
  have hread := Json.parse?_pretty (isPlain_of_toJson? h).1
  simp only [toJson?, Option.bind_eq_bind, Option.bind_eq_some_iff, Option.pure_def,
    Option.some.injEq] at h
  obtain ⟨members, hmembers, rfl⟩ := h
  obtain ⟨files, hfiles, hfold⟩ := foldlM_memberOf ∅ c.files.increasing hc hmembers
  obtain rfl : files = c.files := OrderedMap.eq_of_entries hfiles
  have hversion : Json.decodeUnsigned 32 (.ofUInt32 version) = .ok 1 := rfl
  have hfingerprint : Json.decodeString (.string c.fingerprint) = .ok c.fingerprint := rfl
  have hcontents : Contents.ofJson (.object [("version", .ofUInt32 version),
      ("fingerprint", .string c.fingerprint),
      ("updated_at", .ofOption (c.updatedAt.map (·.text "Z"))), ("files", .object members)]) =
        .ok ⟨1, c.fingerprint, c.updatedAt, c.files⟩ := by
    rw [Contents.ofJson, Json.decodeRecord_cons rfl rfl hversion,
      Json.decodeRecord_cons rfl rfl hfingerprint,
      Json.decodeRecord_cons rfl rfl (decodeUpdatedAt c.updatedAt),
      Json.decodeRecord_cons rfl rfl (v := .object members) hfold]
    rfl
  simp only [parse, hread, hcontents]
  rfl

end Cache

end ExplicitApi
