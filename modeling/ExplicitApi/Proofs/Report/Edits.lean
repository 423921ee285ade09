import ExplicitApi.Proofs.Run.Reordering
import Mathlib.Algebra.Ring.Nat

/-!
Reports as they are made, one edit after another. Main statements: the counters of a report agree with
its lists and with the results taken in, and sorting puts the lists in path order and does no more.
-/
namespace ExplicitApi.Report

/-- What can be done to a report. -/
inductive Edit where
  | add (result : Visit)
  | stopAt (failure : Failure)
  | sorted
  | withExecutionTime (milliseconds : UInt64)
  | withFingerprint (fingerprint : String)
  deriving DecidableEq, Repr

namespace Edit

def apply (r : Report) : Edit → Report
  | add result => r.add result
  | stopAt failure => r.stopAt failure
  | sorted => r.sorted
  | withExecutionTime milliseconds => r.withExecutionTime milliseconds
  | withFingerprint fingerprint => r.withFingerprint fingerprint

/-- The result that an edit takes in. -/
def visit? : Edit → Option Visit
  | add result => some result
  | stopAt failure => some (.failed failure)
  | _ => none

end Edit

def edited (r : Report) (edits : List Edit) : Report := edits.foldl Edit.apply r

variable {r : Report} {vs : List Visit} {edits : List Edit} {α : Type}

theorem edited_append (r : Report) (edits edits' : List Edit) :
    r.edited (edits ++ edits') = (r.edited edits).edited edits' := List.foldl_append

theorem edited_map_add (r : Report) (vs : List Visit) :
    r.edited (vs.map .add) = vs.foldl add r := List.foldl_map

/--
Whether some edits take in results in their order: all of them, or those up to one at which they stop.
-/
structure TakesIn (edits : List Edit) (vs : List Visit) : Prop where
  front : edits.filterMap Edit.visit? <+: vs
  whole : (∀ f, Edit.stopAt f ∉ edits) → edits.filterMap Edit.visit? = vs

theorem filterMap_visit?_map_add (vs : List Visit) :
    (vs.map Edit.add).filterMap Edit.visit? = vs := by
  rw [List.filterMap_map]
  exact List.filterMap_some

theorem takesIn_map_add (vs : List Visit) : TakesIn (vs.map .add) vs where
  front := ⟨[], by rw [filterMap_visit?_map_add, List.append_nil]⟩
  whole _ := filterMap_visit?_map_add vs

theorem TakesIn.cons (h : TakesIn edits vs) (v : Visit) : TakesIn (.add v :: edits) (v :: vs) :=
  ⟨List.cons_prefix_cons.2 ⟨rfl, h.front⟩, fun hnone =>
    congrArg (v :: ·) (h.whole fun f hf => hnone f (List.mem_cons_of_mem _ hf))⟩

theorem TakesIn.append (h : TakesIn edits vs) {edits' : List Edit}
    (hedits : edits'.filterMap Edit.visit? = []) : TakesIn (edits ++ edits') vs := by
  have hvisits : (edits ++ edits').filterMap Edit.visit? = edits.filterMap Edit.visit? := by
    rw [List.filterMap_append, hedits, List.append_nil]
  refine ⟨by rw [hvisits]; exact h.front, fun hnone => ?_⟩
  rw [hvisits]
  exact h.whole fun f hf => hnone f (List.mem_append_left _ hf)

section Sorting

/-- Whether `sorted` has the elements of `l` in the order of their paths, those of one path as in `l`. -/
structure IsStableSort (path : α → Path) (sorted l : List α) : Prop where
  perm : sorted.Perm l
  ordered : sorted.Pairwise fun a b => compare (path a) (path b) ≠ .gt
  stable : ∀ p, (sorted.filter fun a => (path a).same p) = l.filter fun a => (path a).same p

theorem isStableSort_mergeSort (path : α → Path) (l : List α) :
    IsStableSort path (l.mergeSort fun a b => precedes (path a) (path b)) l := by
  refine ⟨List.mergeSort_perm l _, ?_, fun p => ?_⟩
  · exact (Sorting.pairwise_mergeSort path l).imp fun h => by simpa using h
  · refine Sorting.filter_mergeSort path l fun a b ha hb => ?_
    have hsame : (path a).components = (path b).components :=
      (eq_of_beq ha).trans (eq_of_beq hb).symm
    change compare (path a).components (path b).components = .eq
    rw [hsame]
    exact Std.ReflCmp.compare_self

end Sorting

/-- Whether a report counts, in words of 64 bits, and lists the results that were taken in. -/
structure Tallies (r : Report) (visits : List Visit) : Prop where
  processed : r.summary.filesProcessed = .ofNat visits.length
  cached : r.summary.filesCached = .ofNat (visits.count .cached)
  modified : r.summary.filesModified = .ofNat r.files.length
  qualified : r.summary.declarationsQualified =
    .ofNat (r.files.map fun o => o.insertions.length).sum
  failed : r.summary.filesFailed = .ofNat r.failures.length
  files : r.files.Perm (visits.filterMap Visit.change?)
  failures : r.failures.Perm (visits.filterMap Visit.failure?)

theorem tallies_start (mode : Mode) (now : Time.Instant) : (start mode now).Tallies [] :=
  ⟨rfl, rfl, rfl, rfl, rfl, .nil, .nil⟩

theorem files_add (r : Report) (v : Visit) : (r.add v).files = r.files ++ v.change?.toList := by
  cases v <;> simp [add, Visit.change?]

theorem failures_add (r : Report) (v : Visit) :
    (r.add v).failures = r.failures ++ v.failure?.toList := by
  cases v <;> simp [add, Visit.failure?]

theorem filterMap_concat {β : Type} (f : α → Option β) (l : List α) (a : α) :
    (l ++ [a]).filterMap f = l.filterMap f ++ (f a).toList := by
  cases h : f a <;> simp [h]

theorem Tallies.add (h : r.Tallies vs) (v : Visit) : (r.add v).Tallies (vs ++ [v]) := by
  have hfiles : (r.add v).files.Perm ((vs ++ [v]).filterMap Visit.change?) := by
    rw [files_add, filterMap_concat]
    exact h.files.append_right _
  have hfailures : (r.add v).failures.Perm ((vs ++ [v]).filterMap Visit.failure?) := by
    rw [failures_add, filterMap_concat]
    exact h.failures.append_right _
  obtain ⟨hprocessed, hcached, hmodified, hqualified, hfailed, -, -⟩ := h
  cases v with
  | unchanged | cached =>
    refine ⟨?_, ?_, hmodified, hqualified, hfailed, hfiles, hfailures⟩ <;>
      simp [Report.add, hprocessed, hcached]
  | modified o =>
    refine ⟨?_, ?_, ?_, ?_, hfailed, hfiles, hfailures⟩ <;>
      simp [Report.add, hprocessed, hcached, hmodified, hqualified]
  | failed f =>
    refine ⟨?_, ?_, hmodified, hqualified, ?_, hfiles, hfailures⟩ <;>
      simp [Report.add, hprocessed, hcached, hfailed]

theorem Tallies.sorted (h : r.Tallies vs) : r.sorted.Tallies vs := by
  have hfiles : r.sorted.files.Perm r.files := List.mergeSort_perm _ _
  have hfailures : r.sorted.failures.Perm r.failures := List.mergeSort_perm _ _
  refine ⟨h.processed, h.cached, ?_, ?_, ?_, hfiles.trans h.files, hfailures.trans h.failures⟩
  · rw [hfiles.length_eq]
    exact h.modified
  · rw [(hfiles.map _).sum_nat]
    exact h.qualified
  · rw [hfailures.length_eq]
    exact h.failed

/-- No edit makes the counters of a report disagree with what it lists. -/
theorem Tallies.apply (h : r.Tallies vs) (edit : Edit) :
    (edit.apply r).Tallies (vs ++ edit.visit?.toList) := by
  cases edit with
  | add v => exact h.add v
  | stopAt f =>
    have hadd := h.add (.failed f)
    exact ⟨hadd.processed, hadd.cached, hadd.modified, hadd.qualified, hadd.failed, hadd.files,
      hadd.failures⟩
  | sorted =>
    simp only [Edit.visit?, Option.toList_none, List.append_nil]
    exact h.sorted
  | withExecutionTime ms =>
    simp only [Edit.visit?, Option.toList_none, List.append_nil]
    exact ⟨h.processed, h.cached, h.modified, h.qualified, h.failed, h.files, h.failures⟩
  | withFingerprint fp =>
    simp only [Edit.visit?, Option.toList_none, List.append_nil]
    exact ⟨h.processed, h.cached, h.modified, h.qualified, h.failed, h.files, h.failures⟩

theorem Tallies.edited (h : r.Tallies vs) (edits : List Edit) :
    (r.edited edits).Tallies (vs ++ edits.filterMap Edit.visit?) := by
  induction edits generalizing r vs with
  | nil => simpa [Report.edited] using h
  | cons edit edits ih =>
    have hrest := ih (h.apply edit)
    rw [List.append_assoc] at hrest
    have hvisits : (edit :: edits).filterMap Edit.visit? =
        edit.visit?.toList ++ edits.filterMap Edit.visit? := by
      cases hvisit : edit.visit? <;> simp [hvisit]
    rw [hvisits]
    exact hrest

/-- Each result is counted once as processed and once by its kind. -/
theorem Tallies.processed_eq (h : r.Tallies vs) :
    r.summary.filesProcessed = .ofNat (vs.count .unchanged) + r.summary.filesCached +
      r.summary.filesModified + r.summary.filesFailed := by
  have hkinds : ∀ vs : List Visit, vs.length = vs.count .unchanged + vs.count .cached +
      (vs.filterMap Visit.change?).length + (vs.filterMap Visit.failure?).length := by
    intro vs
    induction vs with
    | nil => rfl
    | cons v vs ih =>
      cases v <;> simp [List.filterMap_cons, Visit.change?, Visit.failure?, ih] <;> omega
  rw [h.processed, h.cached, h.modified, h.failed, h.files.length_eq, h.failures.length_eq,
    hkinds vs, UInt64.ofNat_add, UInt64.ofNat_add, UInt64.ofNat_add]

theorem aborted_edited (r : Report) (edits : List Edit) : (r.edited edits).summary.aborted = true ↔
    r.summary.aborted = true ∨ ∃ f, Edit.stopAt f ∈ edits := by
  induction edits generalizing r with
  | nil => simp [edited]
  | cons edit edits ih =>
    have hrest : (r.edited (edit :: edits)).summary.aborted = true ↔
        (edit.apply r).summary.aborted = true ∨ ∃ f, Edit.stopAt f ∈ edits := ih (edit.apply r)
    rw [hrest]
    cases edit with
    | add v => simp [Edit.apply, Job.aborted_add]
    | stopAt f => simp [Edit.apply, stopAt]
    | sorted | withExecutionTime ms | withFingerprint fp =>
      simp [Edit.apply, sorted, withExecutionTime, withFingerprint]

end ExplicitApi.Report
