import ExplicitApi.Proofs.Run.Listing
import ExplicitApi.Proofs.Run.Reporting
import ExplicitApi.Proofs.Run.Transparency

/-!
What a run that keeps a record leaves in it. Main statement: the record has the present stamp of
each file that the run has dealt with, nothing on those that are to be visited again, and on all
others what it had; so the next run skips what the first one wrote.
-/
namespace ExplicitApi

namespace Cache

variable {c : Cache} {p q : Path} {stamp : Stamp}

def stampOf (c : Cache) (p : Path) : Option Stamp := Option.map CacheEntry.stamp <| c.entry? p

theorem stampOf_insert_self (c : Cache) (p : Path) (stamp : Stamp) :
    (c.insert p stamp).stampOf p = some stamp := by
  rw [stampOf, insert, entry?, CacheFiles.put, OrderedMap.find?_insert, if_pos rfl]
  rfl

theorem entry?_insert_of_ne (h : q.components ≠ p.components) :
    Cache.entry? (c.insert p stamp) q = c.entry? q := by
  rw [insert, entry?, CacheFiles.put, OrderedMap.find?_insert, if_neg h]
  rfl

theorem entry?_drop_self (c : Cache) (p : Path) : Cache.entry? (c.drop p) p = none := by
  unfold drop entry?
  split
  · rw [OrderedMap.find?_erase, if_pos rfl]
  · next h => simpa [OrderedMap.contains] using h

theorem entry?_drop_of_ne (h : q.components ≠ p.components) :
    Cache.entry? (c.drop p) q = c.entry? q := by
  unfold drop entry?
  split
  · rw [OrderedMap.find?_erase, if_neg h]
  · rfl

end Cache

namespace FileTree

variable {rules : Rules} {t t' : FileTree} {p : Path}

theorem HasText.exists_stamp (h : t.HasText p) : ∃ stamp, Stamp.read t p = .ok stamp := by
  obtain ⟨text, hread⟩ := h
  obtain ⟨content, hcontent, -⟩ := readText_eq_ok_iff.1 hread
  obtain ⟨modified, hentry⟩ := read_eq_ok_iff.1 hcontent
  exact ⟨_, Stamp.read_of_entry hentry⟩

/-- What a path leads to is as before if it has the content it had. -/
theorem Advances.entry_of_read (h : t.Advances rules t') (hread : t'.read p = t.read p) :
    t'.entry p = t.entry p := by
  have hlocate := locate_congr h.sameShape p
  cases hloc : t.locate p with
  | error e => simp [entry, hlocate, hloc, bind, Except.bind]
  | ok loc =>
    rcases h.lookup loc with hlookup | ⟨content, modified, text, modified', hold, -, hnot, hnew⟩
    · simp [entry, hlocate, hloc, bind, Except.bind, hlookup]
    · have hbefore : t.read p = .ok content :=
        read_eq_ok_iff.2 ⟨modified, entry_eq_ok_iff.2 ⟨loc, hloc, hold⟩⟩
      have hafter : t'.read p = .ok (qualify rules text).text.toUTF8 :=
        read_eq_ok_iff.2 ⟨modified', entry_eq_ok_iff.2 ⟨loc, hlocate.trans hloc, hnew⟩⟩
      rw [hbefore, hafter] at hread
      refine absurd ?_ hnot
      rw [← Except.ok.inj hread]
      exact rules.accepts_qualify text

theorem Advances.read_of_settled (h : t.Advances rules t') (hsettled : t.Settled rules p) :
    t'.read p = t.read p := by
  obtain ⟨content, hread, haccepts⟩ := hsettled
  obtain ⟨modified, hentry⟩ := read_eq_ok_iff.1 hread
  obtain ⟨loc, hloc, hlookup⟩ := entry_eq_ok_iff.1 hentry
  rw [hread]
  refine read_eq_ok_iff.2 ⟨modified, entry_eq_ok_iff.2 ⟨loc, ?_, ?_⟩⟩
  · rw [locate_congr h.sameShape, hloc]
  · exact h.lookup_of_accepts hlookup haccepts

end FileTree

namespace Runner

variable {j : Job} {c c' : Cache} {mode : Mode} {options : Job.Options} {now : Time.Instant}
  {t t' : FileTree} {paths files reached due : List Path} {report report' : Report} {p q : Path}

theorem entry?_settle_of_ne (h : q.components ≠ p.components) :
    Cache.entry? (settle t due c p) q = c.entry? q := by
  unfold settle
  split
  · exact Cache.entry?_drop_of_ne h
  · split
    · next hlearn =>
      obtain ⟨stamp, -, hinsert⟩ := bind_eq_ok_iff.1 hlearn
      cases hinsert
      exact Cache.entry?_insert_of_ne h
    · rfl

theorem entry?_settle_of_pending (c : Cache) (h : due.any p.same = true) :
    Cache.entry? (settle t due c p) p = none := by
  rw [settle, if_pos h]
  exact c.entry?_drop_self p

theorem stampOf_settle_of_read (c : Cache) (h : due.any p.same = false) {stamp : Stamp}
    (hstamp : Stamp.read t p = .ok stamp) :
    (settle t due c p).stampOf p = some stamp := by
  have hlearn : c.learn t p = .ok (c.insert p stamp) := by
    rw [Cache.learn, hstamp]
    rfl
  rw [settle, if_neg (by simp [h]), hlearn]
  exact c.stampOf_insert_self p stamp

theorem entry?_foldl_settle_of_ne (c : Cache) (h : ∀ q ∈ files, q.components ≠ p.components) :
    Cache.entry? (files.foldl (settle t due) c) p = c.entry? p := by
  induction files generalizing c with
  | nil => rfl
  | cons q files ih =>
    rw [List.foldl_cons, ih _ fun r hr => h r (List.mem_cons_of_mem _ hr)]
    exact entry?_settle_of_ne (h q List.mem_cons_self).symm

/-- Each of several different files is settled as if it were the only one. -/
theorem exists_entry?_foldl_settle (c : Cache)
    (hfiles : files.Pairwise fun p q => compare p q = .lt) (hp : p ∈ files) :
    ∃ c₀, Cache.entry? (files.foldl (settle t due) c) p =
      Cache.entry? (settle t due c₀ p) p := by
  induction files generalizing c with
  | nil => cases hp
  | cons q files ih =>
    obtain ⟨hfirst, hrest⟩ := List.pairwise_cons.1 hfiles
    rcases List.mem_cons.1 hp with rfl | hp
    · refine ⟨c, ?_⟩
      rw [List.foldl_cons]
      exact entry?_foldl_settle_of_ne _ fun r hr => (Path.components_ne_of_lt (hfirst r hr)).symm
    · exact ih _ hrest hp

theorem isKnown_of_stamp {stamp : Stamp} (hstamp : Stamp.read t p = .ok stamp)
    (h : c.stampOf p = some stamp) : isKnown c t p = true := by
  obtain ⟨e, he, rfl⟩ := Option.map_eq_some_iff.1 h
  have hcarried := Stamp.isCarried_of_read hstamp
  simp only [isKnown, Cache.knows, he, hcarried]

theorem isKnown_of_none (h : c.entry? p = none) : isKnown c t p = false := by
  rw [isKnown, Cache.knows, h]

theorem isKnown_of_size_ne {stamp : Stamp} {content : ByteArray} {modified : Timestamp}
    (h : c.stampOf p = some stamp)
    (hentry : t.entry p = .ok (.file content modified)) (hsize : .ofNat content.size ≠ stamp.size) :
    isKnown c t p = false := by
  obtain ⟨e, he, rfl⟩ := Option.map_eq_some_iff.1 h
  have hstatus : Stamp.status t p = .ok (.file content.size modified) := by
    rw [Stamp.status, FileTree.status, hentry]
    rfl
  have hcarried : e.stamp.isCarried t p = .ok false := by
    rw [Stamp.isCarried, hstatus, ok_bind]
    exact if_pos (.inl hsize)
  simp only [isKnown, Cache.knows, he, hcarried]

theorem isKnown_congr (hcache : c'.entry? p = c.entry? p) (htree : t'.entry p = t.entry p) :
    isKnown c' t' p = isKnown c t p := by
  simp only [isKnown, Cache.knows, hcache, Stamp.isCarried, Stamp.status, Stamp.hashAt,
    FileTree.status, FileTree.read, htree]

theorem eq_of_same (hfiles : files.Pairwise fun p q => compare p q = .lt) (hp : p ∈ files)
    (hq : q ∈ files) (h : p.same q = true) : p = q := by
  have hapart : files.Pairwise fun p q => p.components ≠ q.components :=
    hfiles.imp Path.components_ne_of_lt
  have : Std.Symm fun p q : Path => p.components ≠ q.components := ⟨fun _ _ => Ne.symm⟩
  by_contra hne
  exact hapart.forall hp hq hne (eq_of_beq h)

theorem exists_same_iff {P : Path → Prop} (hfiles : files.Pairwise fun p q => compare p q = .lt)
    (hp : p ∈ files) : (∃ q ∈ files, p.same q = true ∧ P q) ↔ P p := by
  constructor
  · rintro ⟨q, hq, hsame, hP⟩
    rwa [eq_of_same hfiles hp hq hsame]
  · exact fun hP => ⟨p, hp, Job.same_self p, hP⟩

/-- What a run tells of a file that it has reached, and what it leaves in the record for it. -/
structure Records (j : Job) (mode : Mode) (t t' : FileTree) (report : Report) (c' : Cache)
    (p : Path) : Prop where
  failed : report.HasFailed p ↔ t.Fails j.config.rules mode p
  left : report.HasLeft p ↔ mode = .dry ∧ t.HasText p ∧ ¬t.Settled j.config.rules p
  dropped : report.HasFailed p ∨ report.HasLeft p → c'.entry? p = none
  stamped : ¬report.HasFailed p → ¬report.HasLeft p → ∃ stamp, Stamp.read t' p = .ok stamp ∧
    c'.stampOf p = some stamp

theorem records_foldl_settle (c : Cache)
    (htells : j.Tells mode (Report.start mode now, t) (report, t') reached)
    (hreached : reached.Pairwise fun p q => compare p q = .lt) (hp : p ∈ reached) :
    Records j mode t t' report (reached.foldl (settle t' (pending report)) c) p := by
  have hfailed : report.HasFailed p ↔ t.Fails j.config.rules mode p := by
    have hstart : ¬(Report.start mode now).HasFailed p := by simp [Report.HasFailed, Report.start]
    rw [htells.failed p, or_iff_right hstart, ← Job.failureAt?_ne_none_iff]
    exact exists_same_iff hreached hp
  have hleft : report.HasLeft p ↔ mode = .dry ∧ t.HasText p ∧ ¬t.Settled j.config.rules p := by
    have hstart : ¬(Report.start mode now).HasLeft p := by simp [Report.HasLeft, Report.start]
    rw [htells.left p, or_iff_right hstart]
    exact exists_same_iff hreached hp
  obtain ⟨c₀, hentry⟩ : ∃ c₀, Cache.entry? (reached.foldl (settle t' (pending report)) c) p =
      Cache.entry? (settle t' (pending report) c₀ p) p := exists_entry?_foldl_settle c hreached hp
  refine ⟨hfailed, hleft, fun hpending => ?_, fun hnotFailed hnotLeft => ?_⟩
  · rw [hentry]
    exact entry?_settle_of_pending c₀ (Report.any_same_pending_iff.2 hpending)
  · have hbefore : t.HasText p := by_contra fun hnone => hnotFailed (hfailed.2 (.inl hnone))
    have htext : t'.HasText p := htells.advances.hasText_iff.2 hbefore
    obtain ⟨stamp, hstamp⟩ := htext.exists_stamp
    have hnone : ¬(pending report).any p.same = true := fun hpending =>
      (Report.any_same_pending_iff.1 hpending).elim hnotFailed hnotLeft
    refine ⟨stamp, hstamp, ?_⟩
    rw [Cache.stampOf, hentry]
    exact stampOf_settle_of_read c₀ (Bool.not_eq_true _ ▸ hnone) hstamp

theorem Records.congr (h : Records j mode t t' report c' p) (hfiles : report'.files = report.files)
    (hfailures : report'.failures = report.failures) : Records j mode t t' report' c' p := by
  have hfailed : report'.HasFailed p ↔ report.HasFailed p := by
    rw [Report.HasFailed, hfailures, Report.HasFailed]
  have hleft : report'.HasLeft p ↔ report.HasLeft p := by
    rw [Report.HasLeft, hfiles, Report.HasLeft]
  exact ⟨hfailed.trans h.failed, hleft.trans h.left, by rw [hfailed, hleft]; exact h.dropped,
    by rw [hfailed, hleft]; exact h.stamped⟩

/-- A run with a record reports what it visited, and counts what the record answers for. -/
theorem exists_of_runCached (h : runCached j c options now t paths = .ok (report, c', t')) :
    ∃ files, j.files options t paths = .ok files ∧
      let done := j.visitAll options now t (unknown c t files)
      report.files = done.1.files ∧ report.failures = done.1.failures ∧
        report.summary.aborted = done.1.summary.aborted ∧
        report.summary.filesCached =
          done.1.summary.filesCached + .ofNat (files.countP (isKnown c t)) ∧
        c' = recorded j options now t files c ∧ t' = done.2 := by
  rw [runCached_eq] at h
  cases hfiles : j.files options t paths with
  | error e =>
    rw [hfiles] at h
    cases h
  | ok files =>
    rw [hfiles] at h
    cases h
    refine ⟨files, rfl, ?_⟩
    rw [Report.foldl_cached, ← List.countP_eq_length_filter]
    exact ⟨rfl, rfl, rfl, rfl, rfl, rfl⟩

theorem mem_unknown_iff : p ∈ unknown c t files ↔ p ∈ files ∧ isKnown c t p = false := by
  simp [unknown]

/-- A run keeps what the record has on the files that it answers for. -/
theorem entry?_recorded_of_isKnown (j : Job) (options : Job.Options) (now : Time.Instant)
    (hfiles : files.Pairwise fun p q => compare p q = .lt) (hp : p ∈ files)
    (hknown : isKnown c t p = true) :
    Cache.entry? (recorded j options now t files c) p = c.entry? p := by
  have hunknown : (unknown c t files).Pairwise fun p q => compare p q = .lt := hfiles.filter _
  have hreaches := (Job.tellsVisited_visitAll j options now t hunknown).1
  refine entry?_foldl_settle_of_ne c fun q hq hsame => ?_
  obtain ⟨hqFiles, hqUnknown⟩ := mem_unknown_iff.1 (hreaches.sublist.subset hq)
  have heq : p = q := eq_of_same hfiles hp hqFiles (beq_iff_eq.2 hsame.symm)
  rw [heq, hqUnknown] at hknown
  cases hknown

/-- What the record of a run has on the files that the run has reached. -/
theorem records_recorded (j : Job) (options : Job.Options) (now : Time.Instant)
    (hfiles : files.Pairwise fun p q => compare p q = .lt) :
    let done := j.visitAll options now t (unknown c t files)
    Job.Reaches done.1 (unknown c t files) (visited done.1 (unknown c t files)) ∧
      (∀ p ∈ visited done.1 (unknown c t files),
        Records j options.mode t done.2 done.1 (recorded j options now t files c) p) ∧
      ∀ p, done.1.HasFailed p →
        ∃ q ∈ visited done.1 (unknown c t files), p.same q = true := by
  intro done
  have hunknown : (unknown c t files).Pairwise fun p q => compare p q = .lt := hfiles.filter _
  obtain ⟨hreaches, htells⟩ := Job.tellsVisited_visitAll j options now t hunknown
  refine ⟨hreaches, fun p hp => ?_, fun p hfailed => ?_⟩
  · exact records_foldl_settle c htells (hunknown.sublist hreaches.sublist) hp
  · rcases (htells.failed p).1 hfailed with ⟨f, hf, -⟩ | ⟨q, hq, hsame, -⟩
    · cases hf
    · exact ⟨q, hq, hsame⟩

/-- After a run that fails on a file, the record does not answer for it. -/
theorem isKnown_recorded_of_hasFailed (j : Job) (options : Job.Options) (now : Time.Instant)
    (hfiles : files.Pairwise fun p q => compare p q = .lt) (hp : p ∈ files)
    (hfailed : (j.visitAll options now t (unknown c t files)).1.HasFailed p) :
    isKnown (recorded j options now t files c)
      (j.visitAll options now t (unknown c t files)).2 p = false := by
  obtain ⟨hreaches, hrecords, hamong⟩ := records_recorded j options now hfiles (c := c) (t := t)
  obtain ⟨q, hq, hsame⟩ := hamong p hfailed
  have hqFiles : q ∈ files := (mem_unknown_iff.1 (hreaches.sublist.subset hq)).1
  obtain rfl := eq_of_same hfiles hp hqFiles hsame
  exact isKnown_of_none ((hrecords p hq).dropped (.inl hfailed))

/--
After a run that writes and does not stop, the record answers for what did not fail, unless the run
has changed it.
-/
theorem isKnown_recorded (j : Job) (options : Job.Options) (now : Time.Instant)
    (hfiles : files.Pairwise fun p q => compare p q = .lt) (hp : p ∈ files)
    (hmode : options.mode = .write)
    (haborted : (j.visitAll options now t (unknown c t files)).1.summary.aborted = false)
    (hfailed : ¬(j.visitAll options now t (unknown c t files)).1.HasFailed p)
    (hkept : isKnown c t p = true →
      (j.visitAll options now t (unknown c t files)).2.read p = t.read p) :
    isKnown (recorded j options now t files c)
      (j.visitAll options now t (unknown c t files)).2 p = true := by
  -- a file that the record answers for is not visited, but may be written by another path
  cases hknown : isKnown c t p with
  | true =>
    have hadvances := (j.visitAll_spec options now t (unknown c t files)).advances
    have hentry := entry?_recorded_of_isKnown j options now hfiles hp hknown
    rw [isKnown_congr hentry (hadvances.entry_of_read (hkept hknown)), hknown]
  | false =>
    have hreached : p ∈ visited (j.visitAll options now t (unknown c t files)).1
        (unknown c t files) := by
      rw [Job.visited_of_not_aborted haborted]
      exact mem_unknown_iff.2 ⟨hp, hknown⟩
    have hrecords := (records_recorded j options now hfiles).2.1 p hreached
    have hleft : ¬(j.visitAll options now t (unknown c t files)).1.HasLeft p := by
      rw [hrecords.left, hmode]
      rintro ⟨hdry, -⟩
      cases hdry
    obtain ⟨stamp, hstamp, hentry⟩ := hrecords.stamped hfailed hleft
    exact isKnown_of_stamp hstamp hentry

/-- A run that does not fail counts the files that the record answers for. -/
theorem exists_runCached_of_files (c : Cache) (now : Time.Instant)
    (h : j.files options t paths = .ok files) :
    ∃ report c' t', runCached j c options now t paths = .ok (report, c', t') ∧
      report.summary.filesCached = .ofNat (files.countP (isKnown c t)) := by
  have hrun := runCached_eq j c options now t paths
  rw [h] at hrun
  refine ⟨_, _, _, hrun, ?_⟩
  obtain ⟨files', hfiles', -, -, -, hcached, -, -⟩ := exists_of_runCached hrun
  cases h.symm.trans hfiles'
  have hunknown : (unknown c t files).Pairwise fun p q => compare p q = .lt :=
    (Job.pairwise_files h).filter _
  have hnone := (Job.tellsVisited_visitAll j options now t hunknown).2.cached
  rw [hcached, hnone]
  exact UInt64.zero_add _

/--
A run leaves in the record the present stamps of the files it has reached, and nothing on those to
visit again.
-/
theorem runCached_records (h : runCached j c options now t paths = .ok (report, c', t')) :
    ∃ files reached, j.files options t paths = .ok files ∧
      (files.Pairwise fun p q => compare p q = .lt) ∧
      Job.Reaches report (unknown c t files) reached ∧
      (∀ p ∈ files, isKnown c t p = true → c'.entry? p = c.entry? p) ∧
      (∀ p ∈ reached, Records j options.mode t t' report c' p) ∧
      (∀ p, (∀ q ∈ reached, q.components ≠ p.components) → c'.entry? p = c.entry? p) ∧
      (options.mode = .write → report.summary.aborted = false →
        ∀ options' now' paths', j.files options' t' paths' = .ok files →
          ∃ report' c'' t'', runCached j c' options' now' t' paths' = .ok (report', c'', t'') ∧
            report'.summary.filesCached = .ofNat (files.countP (isKnown c' t')) ∧
            ∀ p ∈ files, (report.HasFailed p → isKnown c' t' p = false) ∧
              (¬report.HasFailed p → (isKnown c t p = true → t'.read p = t.read p) →
                isKnown c' t' p = true)) := by
  obtain ⟨files, hfiles, hchanged, hfailures, haborted, -, rfl, rfl⟩ := exists_of_runCached h
  have horder := Job.pairwise_files hfiles
  obtain ⟨hreaches, hrecords, -⟩ := records_recorded j options now horder (c := c) (t := t)
  have hfailed : ∀ p, report.HasFailed p ↔
      (j.visitAll options now t (unknown c t files)).1.HasFailed p := by
    intro p
    rw [Report.HasFailed, hfailures, Report.HasFailed]
  refine ⟨files, visited (j.visitAll options now t (unknown c t files)).1 (unknown c t files),
    hfiles, horder, ?_, fun p hp => ?_, fun p hp => ?_, fun p => ?_, ?_⟩
  · rw [Job.Reaches, haborted, hfailures]
    exact hreaches
  · exact entry?_recorded_of_isKnown j options now horder hp
  · exact (hrecords p hp).congr hchanged hfailures
  · exact entry?_foldl_settle_of_ne c
  · intro hmode hwhole options' now' paths' hagain
    obtain ⟨report', c'', t'', hrun, hcached⟩ :=
      exists_runCached_of_files (recorded j options now t files c) now' hagain
    refine ⟨report', c'', t'', hrun, hcached, fun p hp => ?_⟩
    rw [hfailed]
    exact ⟨isKnown_recorded_of_hasFailed j options now horder hp,
      isKnown_recorded j options now horder hp hmode (haborted ▸ hwhole)⟩

def aliasTree : FileTree :=
  (FileTree.empty.put ["A.kt".toList] (.file "class A".toUTF8 ⟨1, 0⟩)).put
    ["B.kt".toList] (.link "A.kt")

def aliasStamp : Stamp :=
  ⟨.ofNat "class A".toUTF8.size, ⟨1, 0⟩, Stamp.hashOf "class A".toUTF8⟩

/-- A record that answers for the file, although that needs a qualifier. -/
def aliasRecord : Cache :=
  ((Cache.mk ⟨"c.json"⟩ "" none ∅ true).bind ({} : Config).fingerprint).insert ⟨"A.kt"⟩ aliasStamp

theorem lookup_aliasTree :
    aliasTree.lookup ["A.kt".toList] = some (.file "class A".toUTF8 ⟨1, 0⟩) ∧
      aliasTree.lookup ["B.kt".toList] = some (.link "A.kt") :=
  ⟨rfl, rfl⟩

theorem locate_aliasTree :
    aliasTree.locate ⟨"A.kt"⟩ = .ok ["A.kt".toList] ∧
      aliasTree.locate ⟨"B.kt"⟩ = .ok ["A.kt".toList] := by
  obtain ⟨hfile, hlink⟩ := lookup_aliasTree
  have htarget : Path.pieces "A.kt".toList = ["A.kt".toList] := by decide
  refine ⟨?_, ?_⟩
  · exact FileTree.locate_of_named (by decide) hfile FileTree.file_ne_link (by decide)
  · refine FileTree.locate_of_link (by decide : _ = (_, [] ++ ["B.kt".toList])) hlink ?_
    rw [if_neg (by decide), htarget]
    exact FileTree.follow_of_lookup hfile FileTree.file_ne_link

theorem entry_aliasTree {p : Path} (hp : aliasTree.locate p = .ok ["A.kt".toList]) :
    aliasTree.entry p = .ok (.file "class A".toUTF8 ⟨1, 0⟩) :=
  FileTree.entry_eq_ok_iff.2 ⟨_, hp, lookup_aliasTree.1⟩

/-- Both paths are listed in every tree in which they lead to files. -/
theorem files_alias {t : FileTree} {content content' : ByteArray} {modified modified' : Timestamp}
    (hA : t.entry ⟨"A.kt"⟩ = .ok (.file content modified))
    (hB : t.entry ⟨"B.kt"⟩ = .ok (.file content' modified')) :
    Job.sourceJob.files { noIgnore := true } t [⟨"A.kt"⟩, ⟨"B.kt"⟩] =
      .ok [⟨"A.kt"⟩, ⟨"B.kt"⟩] := by
  refine Job.files_of_isFile rfl rfl fun p hp => ?_
  rcases List.mem_pair.1 hp with rfl | rfl
  · exact ⟨by rw [FileTree.isFile, hA], rfl⟩
  · exact ⟨by rw [FileTree.isFile, hB], rfl⟩

theorem files_aliasTree :
    Job.sourceJob.files { noIgnore := true } aliasTree [⟨"A.kt"⟩, ⟨"B.kt"⟩] =
      .ok [⟨"A.kt"⟩, ⟨"B.kt"⟩] :=
  files_alias (entry_aliasTree locate_aliasTree.1) (entry_aliasTree locate_aliasTree.2)

theorem isKnown_aliasTree :
    isKnown aliasRecord aliasTree ⟨"A.kt"⟩ = true ∧
      isKnown aliasRecord aliasTree ⟨"B.kt"⟩ = false := by
  constructor
  · exact isKnown_of_stamp (Stamp.read_of_entry (entry_aliasTree locate_aliasTree.1))
      (Cache.stampOf_insert_self _ _ _)
  · refine isKnown_of_none ?_
    rw [aliasRecord, Cache.entry?_insert_of_ne (by decide), Cache.bind]
    split <;> rfl

theorem unknown_aliasTree :
    unknown aliasRecord aliasTree [⟨"A.kt"⟩, ⟨"B.kt"⟩] = [⟨"B.kt"⟩] := by
  simp [unknown, isKnown_aliasTree]

/-- A visit of the link writes the file, and does not fail. -/
theorem visitAll_aliasTree (now : Time.Instant) :
    let done := Job.sourceJob.visitAll { noIgnore := true } now aliasTree [⟨"B.kt"⟩]
    done.1.failures = [] ∧ done.1.summary.aborted = false ∧
      ∃ modified, ∀ p, aliasTree.locate p = .ok ["A.kt".toList] →
        done.2.entry p = .ok (.file "public class A".toUTF8 modified) := by
  intro done
  have htext : aliasTree.LeadToText [⟨"B.kt"⟩] ["A.kt".toList] "class A" :=
    ⟨⟨_, List.mem_singleton_self _, locate_aliasTree.2⟩, _, _, lookup_aliasTree.1,
      fromUTF8?_toUTF8 _⟩
  have hread : aliasTree.readText ⟨"B.kt"⟩ = .ok "class A" :=
    FileTree.readText_eq_ok_iff_lookup.2
      ⟨_, _, _, locate_aliasTree.2, lookup_aliasTree.1, fromUTF8?_toUTF8 _⟩
  have hnone : Job.sourceJob.failureAt? .write aliasTree ⟨"B.kt"⟩ = none :=
    Job.failureAt?_of_writable hread fun _ _ => rfl
  have hqualified : (qualify Job.sourceJob.config.rules "class A").text = "public class A" := by
    decide +kernel
  obtain ⟨hcovers, haborted⟩ :=
    Job.visitEach_spec Job.sourceJob .write (Report.start .write now, aliasTree) [⟨"B.kt"⟩]
  obtain ⟨modified, hafter⟩ :=
    Job.lookup_visitEach_of_leadToText Job.sourceJob (Report.start .write now) htext rfl
  rw [hqualified] at hafter
  refine ⟨?_, haborted, modified, fun p hp => FileTree.entry_eq_ok_iff.2 ⟨_, ?_, hafter⟩⟩
  · have hfailures : done.1.failures = _ :=
      Job.failures_visitAll Job.sourceJob { noIgnore := true } now aliasTree [⟨"B.kt"⟩]
    have hclean : [(⟨"B.kt"⟩ : Path)].filterMap (Job.sourceJob.failureAt? .write aliasTree) = [] :=
      List.filterMap_cons_none hnone
    rw [hfailures, hclean, List.mergeSort_nil]
  · rw [← hp]
    exact FileTree.locate_congr hcovers.advances.sameShape p

/-- A run over both paths writes the file, for which the record goes on to have the old stamp. -/
theorem run_aliasTree (now : Time.Instant) :
    ∃ report c' t' modified,
      runCached Job.sourceJob aliasRecord { noIgnore := true } now aliasTree
          [⟨"A.kt"⟩, ⟨"B.kt"⟩] = .ok (report, c', t') ∧
        report.failures = [] ∧ report.summary.aborted = false ∧
        (∀ p, aliasTree.locate p = .ok ["A.kt".toList] →
          t'.entry p = .ok (.file "public class A".toUTF8 modified)) ∧
        c'.entry? ⟨"A.kt"⟩ = aliasRecord.entry? ⟨"A.kt"⟩ ∧ isKnown c' t' ⟨"B.kt"⟩ = true := by
  obtain ⟨hA, hB⟩ := isKnown_aliasTree
  obtain ⟨report, c', t', hrun, -⟩ := exists_runCached_of_files aliasRecord now files_aliasTree
  obtain ⟨files, hfiles, -, hfailures, haborted, -, rfl, rfl⟩ := exists_of_runCached hrun
  cases files_aliasTree.symm.trans hfiles
  have horder := Job.pairwise_files files_aliasTree
  obtain ⟨hnone, hwhole, modified, hentry⟩ := visitAll_aliasTree now
  rw [← unknown_aliasTree] at hnone hwhole hentry
  refine ⟨report, _, _, modified, hrun, hfailures.trans hnone, haborted.trans hwhole, hentry,
    entry?_recorded_of_isKnown _ _ _ horder (by simp) hA, ?_⟩
  refine isKnown_recorded Job.sourceJob _ now horder (by simp) rfl hwhole ?_ fun h => ?_
  · simp [Report.HasFailed, hnone]
  · cases hB.symm.trans h

theorem runCached_records_aliasTree :
    ∃ report c' t' stamp report' c'' t'',
      runCached Job.sourceJob aliasRecord { noIgnore := true } .epoch
          aliasTree [⟨"A.kt"⟩, ⟨"B.kt"⟩] = .ok (report, c', t') ∧
        c'.entry? ⟨"A.kt"⟩ = aliasRecord.entry? ⟨"A.kt"⟩ ∧ Stamp.read t' ⟨"B.kt"⟩ = .ok stamp ∧
        c'.stampOf ⟨"B.kt"⟩ = some stamp ∧
        runCached Job.sourceJob c' { noIgnore := true } .epoch t'
          [⟨"A.kt"⟩, ⟨"B.kt"⟩] = .ok (report', c'', t'') ∧
        isKnown c' t' ⟨"B.kt"⟩ = true := by
  obtain ⟨report, c', t', modified, hrun, hnone, hwhole, hentry, -, -⟩ :=
    run_aliasTree .epoch
  have hagain := files_alias (hentry _ locate_aliasTree.1) (hentry _ locate_aliasTree.2)
  obtain ⟨files, reached, hfiles, -, hreaches, hkept, hrecords, -, hrerun⟩ :=
    runCached_records hrun
  cases files_aliasTree.symm.trans hfiles
  obtain ⟨report', c'', t'', hrun', -, hcached⟩ :=
    hrerun rfl hwhole { noIgnore := true } .epoch _ hagain
  have hnotFailed : ¬report.HasFailed ⟨"B.kt"⟩ := by simp [Report.HasFailed, hnone]
  have hknown := (hcached ⟨"B.kt"⟩ (by simp)).2 hnotFailed fun h =>
    absurd (isKnown_aliasTree.2.symm.trans h) Bool.false_ne_true
  rcases hreaches with ⟨-, rfl⟩ | ⟨haborted, -⟩
  · obtain ⟨-, hleft, -, hstamped⟩ := hrecords ⟨"B.kt"⟩ (by simp [unknown_aliasTree])
    have hnotLeft : ¬report.HasLeft ⟨"B.kt"⟩ := by
      rw [hleft]
      rintro ⟨hmode, -⟩
      cases hmode
    obtain ⟨stamp, hstamp, hB⟩ := hstamped hnotFailed hnotLeft
    exact ⟨report, c', t', stamp, report', c'', t'', hrun, hkept _ (by simp) isKnown_aliasTree.1,
      hstamp, hB, hrun', hknown⟩
  · cases hwhole.symm.trans haborted

/-- A run writes the file of both paths, but the next one counts only the link as cached. -/
theorem rerun_aliasTree :
    Job.ofConfig {} = .ok Job.sourceJob ∧ ∃ report c' t',
      runCached Job.sourceJob aliasRecord { noIgnore := true } .epoch
          aliasTree [⟨"A.kt"⟩, ⟨"B.kt"⟩] = .ok (report, c', t') ∧
        report.failures = [] ∧ report.summary.aborted = false ∧
        Job.sourceJob.files { noIgnore := true } t' [⟨"A.kt"⟩, ⟨"B.kt"⟩] =
          .ok [⟨"A.kt"⟩, ⟨"B.kt"⟩] ∧
        ∃ report' c'' t'', runCached Job.sourceJob c' { noIgnore := true }
            .epoch t' [⟨"A.kt"⟩, ⟨"B.kt"⟩] = .ok (report', c'', t'') ∧
          report'.summary.filesCached = 1 := by
  obtain ⟨report, c', t', modified, hrun, hnone, hwhole, hentry, hkept, hB⟩ :=
    run_aliasTree .epoch
  have hentryA := hentry _ locate_aliasTree.1
  have hagain := files_alias hentryA (hentry _ locate_aliasTree.2)
  have hstamp : c'.stampOf ⟨"A.kt"⟩ = some aliasStamp := by
    rw [Cache.stampOf, hkept]
    exact Cache.stampOf_insert_self _ _ _
  have hA : isKnown c' t' ⟨"A.kt"⟩ = false := isKnown_of_size_ne hstamp hentryA (by decide)
  obtain ⟨report', c'', t'', hrerun, hcached⟩ :=
    exists_runCached_of_files c' .epoch hagain
  refine ⟨rfl, report, c', t', hrun, hnone, hwhole, hagain, report', c'', t'', hrerun, ?_⟩
  rw [hcached]
  simp [hA, hB]

end Runner

namespace World

variable {s : Scope} {file : Location} {w : World} {r : Runner} {c c' : Cache}
  {options : Job.Options} {now : Time.Instant} {paths : List Path} {report : Report} {t' : FileTree}

/--
In a history, after a run that writes and does not stop, the record answers for all its files but
the failing ones.
-/
theorem isKnown_after_run_iff (h : w.Reachable s file) (hs : s.CollisionFree) (hr : r ∈ w.runners)
    (hc : r.cache = some c) (hmode : options.mode = .write)
    (hrun : Runner.runCached r.job c options now w.tree paths = .ok (report, c', t'))
    (hwhole : report.summary.aborted = false) :
    ∃ files, r.job.files options w.tree paths = .ok files ∧
      ∀ p ∈ files, Runner.isKnown c' t' p = true ↔ ¬report.HasFailed p := by
  obtain ⟨files, hfiles, -, hfailures, haborted, -, rfl, rfl⟩ := Runner.exists_of_runCached hrun
  have horder := Job.pairwise_files hfiles
  refine ⟨files, hfiles, fun p hp => ?_⟩
  rw [Report.HasFailed, hfailures]
  constructor
  · intro hknown hfailed
    have hnot := Runner.isKnown_recorded_of_hasFailed r.job options now horder hp hfailed
    cases hnot.symm.trans hknown
  · intro hfailed
    refine Runner.isKnown_recorded r.job options now horder hp hmode (haborted ▸ hwhole) hfailed ?_
    intro hknown
    have hadvances :=
      (r.job.visitAll_spec options now w.tree (Runner.unknown c w.tree files)).advances
    exact hadvances.read_of_settled (settled_of_isKnown h hs hr hc hknown)

end World

end ExplicitApi
