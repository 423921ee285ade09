import ExplicitApi.Proofs.Cache.Soundness
import ExplicitApi.Proofs.Digest.Bytes
import ExplicitApi.Proofs.Run.Listing
import ExplicitApi.Proofs.Sorting

/-!
What the fingerprint of a configuration tells. Main statement: the bytes that are hashed agree
exactly when the configurations do but for the order of their extensions, which selects nothing.
-/
namespace ExplicitApi.Config

variable {rest rest' : List UInt8}

section Bytes

/-! What is written of a value shows where it ends, whatever is written behind it. -/

theorem append_textBytes_inj {s s' : String}
    (h : textBytes s ++ rest = textBytes s' ++ rest') : s = s' ∧ rest = rest' := by
  rw [textBytes, textBytes, List.append_assoc, List.append_assoc] at h
  obtain ⟨htext, hrest⟩ := append_cons_inj (ff_notMem_toUTF8 s) (ff_notMem_toUTF8 s') h
  exact ⟨eq_of_toList_toUTF8 htext, hrest⟩

theorem append_countBytes_inj {m n : Nat} (hm : m < UInt64.size) (hn : n < UInt64.size)
    (h : countBytes m ++ rest = countBytes n ++ rest') : m = n ∧ rest = rest' := by
  obtain ⟨hcount, hrest⟩ := List.append_inj h
    ((Digest.length_littleEndian 8 m).trans (Digest.length_littleEndian 8 n).symm)
  have hsize : UInt64.size = 256 ^ 8 := by decide
  rw [hsize] at hm hn
  exact ⟨Digest.littleEndian_inj hm hn hcount, hrest⟩

theorem append_flatMap_textBytes_inj {l l' : List String} (hlength : l.length = l'.length)
    (h : l.flatMap textBytes ++ rest = l'.flatMap textBytes ++ rest') : l = l' ∧ rest = rest' := by
  induction l generalizing l' with
  | nil =>
    cases l' with
    | nil => exact ⟨rfl, h⟩
    | cons s' l' => cases hlength
  | cons s l ih =>
    cases l' with
    | nil => cases hlength
    | cons s' l' =>
      rw [List.flatMap_cons, List.flatMap_cons, List.append_assoc, List.append_assoc] at h
      obtain ⟨rfl, hback⟩ := append_textBytes_inj h
      obtain ⟨rfl, hrest⟩ := ih (Nat.succ.inj hlength) hback
      exact ⟨rfl, hrest⟩

theorem append_listBytes_inj {l l' : List String} (hl : l.length < UInt64.size)
    (hl' : l'.length < UInt64.size)
    (h : listBytes l ++ rest = listBytes l' ++ rest') : l = l' ∧ rest = rest' := by
  rw [listBytes, listBytes, List.append_assoc, List.append_assoc] at h
  obtain ⟨hlength, hback⟩ := append_countBytes_inj hl hl' h
  exact append_flatMap_textBytes_inj hlength hback

theorem append_optionBytes_inj {o o' : Option String}
    (h : optionBytes o ++ rest = optionBytes o' ++ rest') : o = o' ∧ rest = rest' := by
  have hone : 1 < UInt64.size := by decide
  have hzero : 0 < UInt64.size := by decide
  cases o with
  | none =>
    cases o' with
    | none => exact ⟨rfl, (append_countBytes_inj hzero hzero h).2⟩
    | some s' =>
      rw [optionBytes, optionBytes, List.append_assoc] at h
      exact absurd (append_countBytes_inj hzero hone h).1 Nat.zero_ne_one
  | some s =>
    cases o' with
    | none =>
      rw [optionBytes, optionBytes, List.append_assoc] at h
      exact absurd (append_countBytes_inj hone hzero h).1 Nat.one_ne_zero
    | some s' =>
      rw [optionBytes, optionBytes, List.append_assoc, List.append_assoc] at h
      obtain ⟨rfl, hrest⟩ := append_textBytes_inj (append_countBytes_inj hone hone h).2
      exact ⟨rfl, hrest⟩

end Bytes

section Agreement

theorem sortTexts_eq_iff {l l' : List String} : sortTexts l = sortTexts l' ↔ l.Perm l' := by
  constructor
  · intro h
    have hl := List.mergeSort_perm l fun a b => compare a.toList b.toList != .gt
    have hl' := List.mergeSort_perm l' fun a b => compare a.toList b.toList != .gt
    rw [sortTexts, sortTexts] at h
    exact hl.symm.trans (h ▸ hl')
  · intro h
    exact Sorting.mergeSort_eq_of_perm String.toList h fun a _ b _ heq =>
      String.toList_injective heq

/-- Whether two configurations are the same but for the order of their extensions. -/
structure Agrees (c d : Config) : Prop where
  version : c.version = d.version
  extensions : c.extensions.Perm d.extensions
  patterns : c.patterns = d.patterns
  ignoreFile : c.ignoreFile = d.ignoreFile
  rules : c.rules = d.rules

structure IsCountable (c : Config) : Prop where
  extensions : c.extensions.length < UInt64.size
  patterns : c.patterns.length < UInt64.size

variable {c d : Config}

theorem fingerprintBytes_eq_iff (hc : c.IsCountable) (hd : d.IsCountable) :
    c.fingerprintBytes = d.fingerprintBytes ↔ c.Agrees d := by
  constructor
  · intro h
    have hrules := rules_eq_of_fingerprintBytes h
    simp only [fingerprintBytes, List.append_assoc] at h
    have hsorted : ∀ l : List String, l.length < UInt64.size →
        (sortTexts l).length < UInt64.size := by
      intro l hl
      rwa [sortTexts, List.length_mergeSort]
    obtain ⟨hversion, h⟩ := append_textBytes_inj h
    obtain ⟨hextensions, h⟩ :=
      append_listBytes_inj (hsorted _ hc.extensions) (hsorted _ hd.extensions) h
    obtain ⟨hpatterns, h⟩ := append_listBytes_inj hc.patterns hd.patterns h
    obtain ⟨hignore, -⟩ := append_optionBytes_inj h
    exact ⟨hversion, sortTexts_eq_iff.1 hextensions, hpatterns, hignore, hrules⟩
  · rintro ⟨hversion, hextensions, hpatterns, hignore, hrules⟩
    rw [fingerprintBytes, fingerprintBytes, hversion, sortTexts_eq_iff.2 hextensions, hpatterns,
      hignore, hrules]

end Agreement

end ExplicitApi.Config

namespace ExplicitApi.Selection

def withExtensions (s : Selection) (extensions : List String) : Selection := { s with extensions }

variable {s : Selection} {extensions : List String}

theorem hasExtension_withExtensions (h : extensions.Perm s.extensions) (path : Path) :
    (s.withExtensions extensions).hasExtension path = s.hasExtension path :=
  h.any_eq

/-- The order of the extensions selects nothing. -/
theorem selects_withExtensions (h : extensions.Perm s.extensions) :
    (s.withExtensions extensions).selects = s.selects := by
  funext t root path
  simp only [selects, selectsByName, hasExtension_withExtensions h]
  rfl

theorem withPattern_withExtensions (s : Selection) (extensions : List String) (raw : String) :
    (s.withExtensions extensions).withPattern raw =
      (s.withPattern raw).map (·.withExtensions extensions) := by
  unfold withPattern
  cases PathPattern.parse raw <;> rfl

theorem withInclude_withExtensions (s : Selection) (extensions : List String) (raw : String) :
    (s.withExtensions extensions).withInclude raw =
      (s.withInclude raw).map (·.withExtensions extensions) := by
  unfold withInclude
  cases PathPattern.parse raw <;> rfl

end ExplicitApi.Selection

namespace ExplicitApi.Job

variable {s : Selection} {extensions : List String}

theorem filesOf_withExtensions (h : extensions.Perm s.extensions) (t : FileTree) (path : Path) :
    filesOf (s.withExtensions extensions) t path = filesOf s t path := by
  simp only [filesOf, Selection.selectsFile, Selection.filesUnder,
    Selection.selects_withExtensions h]

theorem foldlM_withExtensions {f : Selection → String → Except PatternError Selection}
    (hf : ∀ s raw, f (s.withExtensions extensions) raw =
      (f s raw).map (·.withExtensions extensions)) (raws : List String) (s : Selection) :
    raws.foldlM (fun s raw => (f s raw).mapError Error.pattern) (s.withExtensions extensions) =
      (raws.foldlM (fun s raw => (f s raw).mapError Error.pattern) s).map
        (·.withExtensions extensions) := by
  induction raws generalizing s with
  | nil => rfl
  | cons raw raws ih =>
    rw [List.foldlM_cons, List.foldlM_cons, hf]
    cases f s raw with
    | error e => rfl
    | ok stepped => exact ih stepped

theorem selectionFor_withExtensions (j : Job) (config : Config) (options : Options) :
    selectionFor ⟨config, j.selection.withExtensions extensions⟩ options =
      (j.selectionFor options).map (·.withExtensions extensions) := by
  have hexclude := fun s => Selection.withPattern_withExtensions s extensions
  have hinclude := fun s => Selection.withInclude_withExtensions s extensions
  simp only [selectionFor, foldlM_withExtensions hexclude]
  cases options.exclude.foldlM (fun s raw => (s.withPattern raw).mapError Error.pattern)
      j.selection with
  | error e => rfl
  | ok excluding =>
    simp only [Except.map, bind, Except.bind]
    rw [foldlM_withExtensions hinclude]
    cases options.includes.foldlM (fun s raw => (s.withInclude raw).mapError Error.pattern)
        excluding with
    | error e => rfl
    | ok including =>
      cases options.noIgnore <;> rfl

/-- A job that differs in the order of the extensions lists the same files. -/
theorem files_withExtensions (j : Job) (config : Config)
    (h : extensions.Perm j.selection.extensions) (options : Options) (t : FileTree)
    (paths : List Path) :
    files ⟨config, j.selection.withExtensions extensions⟩ options t paths =
      j.files options t paths := by
  rw [files, files, selectionFor_withExtensions]
  cases hs : j.selectionFor options with
  | error e => rfl
  | ok s =>
    have hperm : extensions.Perm s.extensions := by
      rwa [extensions_selectionFor hs]
    simp only [Except.map, bind, Except.bind, filesOf_withExtensions hperm]

end ExplicitApi.Job

namespace ExplicitApi.Config

variable {c d : Config}

theorem exists_mapM_parse {patterns : List String} (h : patterns.forM checkPattern = .ok ()) :
    ∃ parsed, patterns.mapM PathPattern.parse = .ok parsed := by
  induction patterns with
  | nil => exact ⟨[], rfl⟩
  | cons pattern patterns ih =>
    obtain ⟨_, hpattern, hrest⟩ := bind_eq_ok_iff.1 h
    obtain ⟨glob, hglob⟩ : ∃ glob,
        PathPattern.compileSource (PathPattern.splitMark pattern).2 = .ok glob := by
      unfold checkPattern at hpattern
      split at hpattern
      · exact ⟨_, ‹_›⟩
      · cases hpattern
    obtain ⟨parsed, hparsed⟩ := ih hrest
    have hparse : PathPattern.parse pattern = .ok
        ⟨(PathPattern.splitMark pattern).1, (PathPattern.splitMark pattern).2, glob⟩ := by
      simp only [PathPattern.parse, hglob]
    rw [List.mapM_cons, hparse, hparsed]
    exact ⟨_, rfl⟩

theorem forM_checkPattern (h : c.IsValid) : c.patterns.forM checkPattern = .ok () := by
  simp only [IsValid, check] at h
  split at h
  · cases h
  · split at h
    · cases h
    · split at h
      · cases h
      · exact h

/-- A valid configuration describes a selection. -/
theorem exists_ofConfig (h : c.IsValid) :
    ∃ parsed, c.patterns.mapM PathPattern.parse = .ok parsed ∧
      Job.ofConfig c = .ok ⟨c, ⟨c.extensions, parsed, [], c.ignoreFile.filter (· != "")⟩⟩ := by
  obtain ⟨parsed, hparsed⟩ := exists_mapM_parse (forM_checkPattern h)
  refine ⟨parsed, hparsed, ?_⟩
  have hcheck : c.check = .ok () := h
  simp only [Job.ofConfig, Selection.make, hcheck, hparsed]
  rfl

/-- Valid configurations that agree list the same files of a tree and qualify every text alike. -/
theorem Agrees.jobs (h : c.Agrees d) (hc : c.IsValid) (hd : d.IsValid) :
    ∃ j k, Job.ofConfig c = .ok j ∧ Job.ofConfig d = .ok k ∧
      (∀ options t paths, j.files options t paths = k.files options t paths) ∧
      ∀ text, qualify j.config.rules text = qualify k.config.rules text := by
  obtain ⟨parsed, hparsed, hj⟩ := exists_ofConfig hc
  obtain ⟨parsed', hparsed', hk⟩ := exists_ofConfig hd
  have hsame : parsed' = parsed := by
    rw [h.patterns, hparsed'] at hparsed
    exact Except.ok.inj hparsed
  rw [hsame, ← h.ignoreFile] at hk
  refine ⟨_, _, hj, hk, ?_, ?_⟩
  · intro options t paths
    exact (Job.files_withExtensions
      ⟨c, ⟨c.extensions, parsed, [], c.ignoreFile.filter (· != "")⟩⟩ d h.extensions.symm
      options t paths).symm
  · intro text
    rw [h.rules]

/-- Entries outlive a change of the configuration only if both are hashed to the same number. -/
theorem hash_eq_of_bind_ne_empty {cache : Cache} (hcache : cache.fingerprint = c.fingerprint)
    (h : (cache.bind d.fingerprint).files ≠ ∅) :
    Digest.Sip.hash c.fingerprintBytes = Digest.Sip.hash d.fingerprintBytes := by
  have hsame : c.fingerprint = d.fingerprint := by
    by_contra hne
    rw [Cache.bind, hcache, if_neg hne] at h
    exact h rfl
  exact Digest.numberText_injective hsame

/--
The hashed bytes of configurations agree just when these do up to the order of extensions, and then
so do their runs.
-/
theorem fingerprint_exact (hc : c.IsCountable) (hd : d.IsCountable) :
    (c.fingerprintBytes = d.fingerprintBytes ↔ c.Agrees d) ∧
    (c.IsValid → d.IsValid → c.fingerprintBytes = d.fingerprintBytes →
      ∃ j k, Job.ofConfig c = .ok j ∧ Job.ofConfig d = .ok k ∧
        (∀ options t paths, j.files options t paths = k.files options t paths) ∧
        ∀ text, qualify j.config.rules text = qualify k.config.rules text) ∧
    ∀ cache : Cache, cache.fingerprint = c.fingerprint → ¬c.Agrees d →
      (cache.bind d.fingerprint).files ≠ ∅ →
      c.fingerprintBytes ≠ d.fingerprintBytes ∧
        Digest.Sip.hash c.fingerprintBytes = Digest.Sip.hash d.fingerprintBytes := by
  have hbytes := fingerprintBytes_eq_iff hc hd
  refine ⟨hbytes, ?_, ?_⟩
  · intro hvalid hvalid' hsame
    exact (hbytes.1 hsame).jobs hvalid hvalid'
  · intro cache hcache hchange hkept
    exact ⟨fun hsame => hchange (hbytes.1 hsame), hash_eq_of_bind_ne_empty hcache hkept⟩

def scripts : Config := { extensions := [".kt", ".kts"], patterns := ["build/"] }

def scriptsFirst : Config := { extensions := [".kts", ".kt"], patterns := ["build/"] }

theorem fingerprint_exact_scripts :
    scripts.IsCountable ∧ scriptsFirst.IsCountable ∧ scripts ≠ scriptsFirst ∧
      scripts.fingerprintBytes = scriptsFirst.fingerprintBytes ∧
      ∃ j k, Job.ofConfig scripts = .ok j ∧ Job.ofConfig scriptsFirst = .ok k ∧
        ∀ options t paths, j.files options t paths = k.files options t paths := by
  have hcount : scripts.IsCountable := ⟨by decide, by decide⟩
  have hcount' : scriptsFirst.IsCountable := ⟨by decide, by decide⟩
  have hagrees : scripts.Agrees scriptsFirst :=
    ⟨rfl, List.Perm.swap ".kts" ".kt" [], rfl, rfl, rfl⟩
  obtain ⟨hbytes, hjobs, -⟩ := fingerprint_exact hcount hcount'
  have hsame := hbytes.2 hagrees
  obtain ⟨j, k, hj, hk, hfiles, -⟩ := hjobs (by decide +kernel) (by decide +kernel) hsame
  exact ⟨hcount, hcount', by decide, hsame, j, k, hj, hk, hfiles⟩

end ExplicitApi.Config
