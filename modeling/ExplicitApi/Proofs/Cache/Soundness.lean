import ExplicitApi.Proofs.Run.Visits
import Mathlib.Data.Set.Function

/-!
What the entries of a record stand for. An entry says nothing about the file that is there now, only
that some content with its hash needed no qualifier.
-/
namespace ExplicitApi

theorem Config.rules_eq_of_fingerprintBytes {c d : Config}
    (h : c.fingerprintBytes = d.fingerprintBytes) : c.rules = d.rules := by
  have hbool : ∀ a b : Bool, boolBytes a = boolBytes b → a = b := by decide
  obtain ⟨hfront, hfunctions⟩ := List.append_inj' h rfl
  obtain ⟨-, htypes⟩ := List.append_inj' hfront rfl
  have htypes := hbool _ _ htypes
  have hfunctions := hbool _ _ hfunctions
  cases hc : c.rules
  cases hd : d.rules
  rw [hc, hd] at htypes hfunctions
  cases htypes
  cases hfunctions
  rfl

/-- The contents of files and the configurations that occur. -/
structure Scope where
  contents : Set ByteArray
  configs : Set Config

namespace Scope

/--
Whether different contents have different hashes, and configurations that are hashed from different
bytes have different fingerprints.
-/
structure CollisionFree (s : Scope) : Prop where
  contents : Set.InjOn Stamp.hashOf s.contents
  configs : ∀ c ∈ s.configs, ∀ d ∈ s.configs,
    c.fingerprint = d.fingerprint → c.fingerprintBytes = d.fingerprintBytes

/-- Whether a hash is that of a content which the configuration of a fingerprint leaves alone. -/
def Vouches (s : Scope) (fingerprint hash : String) : Prop :=
  ∃ content ∈ s.contents, Stamp.hashOf content = hash ∧
    ∃ config ∈ s.configs, config.fingerprint = fingerprint ∧ config.rules.Accepts content

def Holds (s : Scope) (t : FileTree) : Prop :=
  ∀ loc content modified, t.lookup loc = some (.file content modified) → content ∈ s.contents

theorem Holds.read {s : Scope} {t : FileTree} (h : s.Holds t) {path : Path} {content : ByteArray}
    (hread : t.read path = .ok content) : content ∈ s.contents := by
  obtain ⟨modified, hentry⟩ := FileTree.read_eq_ok_iff.1 hread
  obtain ⟨loc, _, hlookup⟩ := FileTree.entry_eq_ok_iff.1 hentry
  exact h loc content modified hlookup

/-- What a hash vouches for holds of every content with that hash, unless hashes collide. -/
theorem accepts_of_vouches {s : Scope} (hs : s.CollisionFree) {config : Config}
    (hconfig : config ∈ s.configs) {content : ByteArray} (hcontent : content ∈ s.contents)
    (h : s.Vouches config.fingerprint (Stamp.hashOf content)) : config.rules.Accepts content := by
  obtain ⟨content', hcontent', hhash, config', hconfig', hfingerprint, haccepts⟩ := h
  have hsame : content' = content := hs.contents hcontent' hcontent hhash
  have hbytes := hs.configs config' hconfig' config hconfig hfingerprint
  rwa [hsame, Config.rules_eq_of_fingerprintBytes hbytes] at haccepts

end Scope

namespace Stamp

variable {t : FileTree} {path : Path}

theorem hashAt_eq_ok_iff {hash : String} :
    hashAt t path = .ok hash ↔ ∃ content, t.read path = .ok content ∧ hashOf content = hash := by
  unfold hashAt
  cases t.read path with
  | error cause => exact ⟨nofun, nofun⟩
  | ok content =>
    constructor
    · intro h
      cases h
      exact ⟨content, rfl, rfl⟩
    · rintro ⟨_, hcontent, rfl⟩
      cases hcontent
      rfl

/-- A stamp carries the hash of what was read. -/
theorem exists_read_of_read {stamp : Stamp} (h : Stamp.read t path = .ok stamp) :
    ∃ content, t.read path = .ok content ∧ hashOf content = stamp.sha256 := by
  rw [Stamp.read, bind_eq_ok_iff] at h
  obtain ⟨found, _, h⟩ := h
  cases found with
  | directory => cases h
  | file size modified =>
    obtain ⟨hash, hhash, h⟩ := bind_eq_ok_iff.1 h
    cases h
    exact hashAt_eq_ok_iff.1 hhash

theorem exists_read_of_isCarried {stamp : Stamp} (h : stamp.isCarried t path = .ok true) :
    ∃ content, t.read path = .ok content ∧ hashOf content = stamp.sha256 := by
  rw [isCarried, bind_eq_ok_iff] at h
  obtain ⟨found, _, h⟩ := h
  cases found with
  | directory => cases h
  | file size modified =>
    dsimp only at h
    split at h
    · cases h
    · obtain ⟨hash, hhash, h⟩ := bind_eq_ok_iff.1 h
      obtain ⟨content, hread, rfl⟩ := hashAt_eq_ok_iff.1 hhash
      refine ⟨content, hread, ?_⟩
      simpa [pure, Except.pure] using h

theorem read_of_entry {content : ByteArray} {modified : Timestamp}
    (h : t.entry path = .ok (.file content modified)) :
    Stamp.read t path = .ok ⟨.ofNat content.size, modified, hashOf content⟩ := by
  have hhash : hashAt t path = .ok (hashOf content) :=
    hashAt_eq_ok_iff.2 ⟨content, FileTree.read_eq_ok_iff.2 ⟨modified, h⟩, rfl⟩
  have hstatus : t.status path = .ok (.file content.size modified) := by
    rw [FileTree.status, h]
    rfl
  rw [Stamp.read, status, hstatus]
  simp [hhash, Except.mapError, bind, Except.bind, pure, Except.pure]

/-- A stamp is carried by what it was read from. -/
theorem isCarried_of_read {stamp : Stamp} (h : Stamp.read t path = .ok stamp) :
    stamp.isCarried t path = .ok true := by
  rw [Stamp.read, bind_eq_ok_iff] at h
  obtain ⟨found, hfound, h⟩ := h
  cases found with
  | directory => cases h
  | file size modified =>
    obtain ⟨hash, hhash, h⟩ := bind_eq_ok_iff.1 h
    cases h
    simp [isCarried, hfound, hhash, bind, Except.bind, pure, Except.pure]

end Stamp

namespace Cache

/-- Whether each entry of a record carries the hash of a content that its configuration accepts. -/
def IsSound (s : Scope) (c : Cache) : Prop :=
  ∀ e ∈ c.files.values, s.Vouches c.fingerprint e.stamp.sha256

variable {s : Scope} {c c' : Cache} {t : FileTree} {path : Path}

theorem IsSound.of_subset (h : c.IsSound s) (hfingerprint : c'.fingerprint = c.fingerprint)
    (hfiles : ∀ e' ∈ c'.files.values, ∃ e ∈ c.files.values, e.stamp.sha256 = e'.stamp.sha256) :
    c'.IsSound s := by
  intro e' he'
  obtain ⟨e, he, hhash⟩ := hfiles e' he'
  rw [hfingerprint, ← hhash]
  exact h e he

theorem isSound_of_isEmpty (h : c.files = ∅) : c.IsSound s := by
  intro e he
  rw [h] at he
  cases he

theorem IsSound.bind (h : c.IsSound s) (fingerprint : String) : (c.bind fingerprint).IsSound s := by
  unfold Cache.bind
  split
  · exact h
  · exact isSound_of_isEmpty rfl

theorem fingerprint_bind (c : Cache) (fingerprint : String) :
    (c.bind fingerprint).fingerprint = fingerprint := by
  unfold Cache.bind
  split
  · next heq => exact heq
  · rfl

theorem mem_values_put {files : CacheFiles} {stamp : Stamp} {e : CacheEntry}
    (he : e ∈ (files.put path stamp).values) : e.stamp = stamp ∨ e ∈ files.values := by
  obtain ⟨⟨k, e⟩, hmem, rfl⟩ := List.mem_map.1 he
  rcases OrderedMap.mem_insert_iff.1 hmem with ⟨_, hvalue⟩ | ⟨_, hold⟩
  · exact .inl (by rw [hvalue])
  · exact .inr (List.mem_map.2 ⟨_, hold, rfl⟩)

/-- Entries are kept under the components of their paths, and what holds of all still does. -/
theorem forall_entries_put {files : CacheFiles} {P : List Path.Component → Stamp → Prop}
    (h : ∀ m ∈ files.entries, m.2.path.components = m.1 ∧ P m.1 m.2.stamp) {stamp : Stamp}
    (hstamp : P path.components stamp) :
    ∀ m ∈ (files.put path stamp).entries, m.2.path.components = m.1 ∧ P m.1 m.2.stamp := by
  rintro ⟨k, e⟩ hm
  rcases OrderedMap.mem_insert_iff.1 hm with ⟨rfl, rfl⟩ | ⟨_, hold⟩
  · refine ⟨?_, hstamp⟩
    cases hfound : files.find? path.components with
    | none => rfl
    | some old => exact (h _ (OrderedMap.find?_eq_some_iff.1 hfound)).1
  · exact h _ hold

theorem IsSound.insert (h : c.IsSound s) {stamp : Stamp}
    (hstamp : s.Vouches c.fingerprint stamp.sha256) : (c.insert path stamp).IsSound s := by
  intro e he
  rcases mem_values_put he with hnew | hold
  · rw [hnew]
    exact hstamp
  · exact h e hold

theorem mem_values_of_mem_filter {files : CacheFiles}
    {keep : List Path.Component → CacheEntry → Bool} {e : CacheEntry}
    (he : e ∈ (files.filter keep).values) : e ∈ files.values := by
  obtain ⟨k, hmem, rfl⟩ := List.mem_map.1 he
  exact List.mem_map.2 ⟨k, List.mem_of_mem_filter hmem, rfl⟩

theorem IsSound.drop (h : c.IsSound s) (path : Path) : (c.drop path).IsSound s := by
  unfold Cache.drop
  split
  · exact h.of_subset rfl fun e he => ⟨e, mem_values_of_mem_filter he, rfl⟩
  · exact h

theorem fingerprint_drop (c : Cache) (path : Path) : (c.drop path).fingerprint = c.fingerprint := by
  unfold Cache.drop
  split <;> rfl

theorem IsSound.withoutMissing (h : c.IsSound s) (t : FileTree) :
    (c.withoutMissing t).IsSound s :=
  h.of_subset rfl fun e he => ⟨e, mem_values_of_mem_filter he, rfl⟩

/-- What a record answers for needs no qualifier, whatever happened to the file in between. -/
theorem settled_of_knows (h : c.IsSound s) (hs : s.CollisionFree) (ht : s.Holds t) {config : Config}
    (hconfig : config ∈ s.configs) (hfingerprint : c.fingerprint = config.fingerprint)
    (hknows : c.knows t path = .ok true) : t.Settled config.rules path := by
  unfold knows at hknows
  split at hknows
  · next e he =>
    obtain ⟨content, hread, hhash⟩ := Stamp.exists_read_of_isCarried hknows
    have hmem : e ∈ c.files.values := by
      exact List.mem_map.2 ⟨_, OrderedMap.find?_eq_some_iff.1 he, rfl⟩
    have hvouches := h e hmem
    rw [hfingerprint, ← hhash] at hvouches
    exact ⟨content, hread, Scope.accepts_of_vouches hs hconfig (ht.read hread) hvouches⟩
  · cases hknows

/-- What was recorded last is known. -/
theorem knows_insert (c : Cache) {stamp : Stamp} (h : Stamp.read t path = .ok stamp) :
    (c.insert path stamp).knows t path = .ok true := by
  have hentry : ∃ spelled, Cache.entry? (c.insert path stamp) path = some ⟨spelled, stamp⟩ :=
    ⟨_, by rw [Cache.insert, Cache.entry?, CacheFiles.put, OrderedMap.find?_insert, if_pos rfl]⟩
  obtain ⟨spelled, hentry⟩ := hentry
  rw [Cache.knows, hentry]
  exact Stamp.isCarried_of_read h

end Cache

namespace Runner

variable {s : Scope} {c : Cache} {t : FileTree} {path : Path} {pending : List Path}

theorem fingerprint_settle (t : FileTree) (pending : List Path) (c : Cache) (path : Path) :
    (settle t pending c path).fingerprint = c.fingerprint := by
  unfold settle
  split
  · exact c.fingerprint_drop path
  · split
    · next c' hlearn =>
      obtain ⟨stamp, _, h⟩ := bind_eq_ok_iff.1 hlearn
      cases h
      rfl
    · rfl

/-- Recording a visited file that is not pending keeps a record sound. -/
theorem isSound_settle (h : c.IsSound s) (ht : s.Holds t) {config : Config}
    (hconfig : config ∈ s.configs) (hfingerprint : c.fingerprint = config.fingerprint)
    (hpath : path ∈ pending ∨ t.Settled config.rules path) :
    (settle t pending c path).IsSound s := by
  unfold settle
  split
  · exact h.drop path
  · next hpending =>
    split
    · next c' hlearn =>
      obtain ⟨stamp, hstamp, hinsert⟩ := bind_eq_ok_iff.1 hlearn
      cases hinsert
      have hsettled : t.Settled config.rules path := by
        refine hpath.resolve_left fun hmem => hpending ?_
        exact List.any_eq_true.2 ⟨path, hmem, Job.same_self path⟩
      obtain ⟨content, hread, haccepts⟩ := hsettled
      obtain ⟨content', hread', hhash⟩ := Stamp.exists_read_of_read hstamp
      cases hread.symm.trans hread'
      exact h.insert ⟨content, ht.read hread, hhash, config, hconfig, hfingerprint.symm, haccepts⟩
    · exact h

theorem fingerprint_foldl_settle (t : FileTree) (pending files : List Path) (c : Cache) :
    (files.foldl (settle t pending) c).fingerprint = c.fingerprint := by
  induction files generalizing c with
  | nil => rfl
  | cons path files ih => rw [List.foldl_cons, ih, fingerprint_settle]

theorem isSound_foldl_settle {files : List Path} (h : c.IsSound s) (ht : s.Holds t)
    {config : Config} (hconfig : config ∈ s.configs)
    (hfingerprint : c.fingerprint = config.fingerprint)
    (hfiles : ∀ path ∈ files, path ∈ pending ∨ t.Settled config.rules path) :
    (files.foldl (settle t pending) c).IsSound s := by
  induction files generalizing c with
  | nil => exact h
  | cons path files ih =>
    have hpath := hfiles path List.mem_cons_self
    refine ih (isSound_settle h ht hconfig hfingerprint hpath) ?_ ?_
    · rw [fingerprint_settle, hfingerprint]
    · exact fun p hp => hfiles p (List.mem_cons_of_mem _ hp)

/-- Whether a runner's record, if it has one, is sound and belongs to its configuration. -/
def IsSound (s : Scope) (r : Runner) : Prop :=
  r.job.config ∈ s.configs ∧ ∀ c, r.cache = some c →
    c.fingerprint = r.job.config.fingerprint ∧ c.IsSound s

end Runner

end ExplicitApi
