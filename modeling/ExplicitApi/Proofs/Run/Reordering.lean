import ExplicitApi.Proofs.FileTree.Following
import ExplicitApi.Proofs.Run.Outcomes
import ExplicitApi.Proofs.Sorting
import Mathlib.Data.List.Pairwise

/-!
Runs over a list in another order. Main statement: when no two paths of the list lead to one file,
the order shows in the report only where failures of paths with the same components follow each
other.
-/
namespace ExplicitApi

theorem FileTree.eq_of_components_eq {t : FileTree} {p q : Path} {loc loc' : Location}
    (hcomponents : p.components = q.components) (hp : t.locate p = .ok loc)
    (hq : t.locate q = .ok loc') : loc = loc' := by
  obtain ⟨hlead, hnamed⟩ := Path.components_eq_iff.1 hcomponents
  have hfollow := follow_named hp
  rw [hlead, hnamed, follow_named hq] at hfollow
  cases hfollow
  rfl

def Visit.change? : Visit → Option Change
  | .modified o => some o
  | _ => none

def Visit.failure? : Visit → Option Failure
  | .failed f => some f
  | _ => none

def Summary.add (s : Summary) (v : Visit) : Summary := (Report.add ⟨[], [], s, none⟩ v).summary

theorem Summary.add_comm (s : Summary) (v w : Visit) : (s.add v).add w = (s.add w).add v := by
  have hright : ∀ a b c : UInt64, a + b + c = a + c + b := fun a b c => by
    rw [UInt64.add_assoc, UInt64.add_comm b c, ← UInt64.add_assoc]
  cases v <;> cases w <;> simp [add, Report.add, hright]

namespace Report

variable {vs vs' : List Visit}

theorem files_foldl_add (r : Report) (vs : List Visit) :
    (vs.foldl add r).files = r.files ++ vs.filterMap Visit.change? := by
  induction vs generalizing r with
  | nil => simp
  | cons v vs ih => cases v <;> simp [ih, add, List.filterMap_cons, Visit.change?]

theorem failures_foldl_add (r : Report) (vs : List Visit) :
    (vs.foldl add r).failures = r.failures ++ vs.filterMap Visit.failure? := by
  induction vs generalizing r with
  | nil => simp
  | cons v vs ih => cases v <;> simp [ih, add, List.filterMap_cons, Visit.failure?]

theorem summary_foldl_add (r : Report) (vs : List Visit) :
    (vs.foldl add r).summary = vs.foldl Summary.add r.summary := by
  induction vs generalizing r with
  | nil => rfl
  | cons v vs ih =>
    rw [List.foldl_cons, List.foldl_cons, ih]
    cases v <;> rfl

theorem summary_foldl_add_of_perm (r : Report) (h : vs'.Perm vs) :
    (vs'.foldl add r).summary = (vs.foldl add r).summary := by
  rw [summary_foldl_add, summary_foldl_add]
  exact h.foldl_eq' (fun v _ w _ s => s.add_comm v w) r.summary

theorem files_sorted (r : Report) (fingerprint : String) (vs : List Visit) :
    ((vs.foldl add r).withFingerprint fingerprint).sorted.files =
      (r.files ++ vs.filterMap Visit.change?).mergeSort fun a b => precedes a.path b.path := by
  rw [← files_foldl_add]
  rfl

theorem failures_sorted (r : Report) (fingerprint : String) (vs : List Visit) :
    ((vs.foldl add r).withFingerprint fingerprint).sorted.failures =
      (r.failures ++ vs.filterMap Visit.failure?).mergeSort fun f g =>
        precedes f.path g.path := by
  rw [← failures_foldl_add]
  rfl

/-- Whether two reports agree but for the order among failures of paths with the same components. -/
structure AgreesUpToTies (r s : Report) : Prop where
  rest : r = { s with failures := r.failures }
  failures : r.failures.Perm s.failures
  order : r.failures.map (·.path.components) = s.failures.map (·.path.components)

theorem AgreesUpToTies.eq {r s : Report} (h : r.AgreesUpToTies s)
    (hties : ∀ f ∈ s.failures, ∀ g ∈ s.failures, f.path.components = g.path.components → f = g) :
    r = s := by
  have hfailures : r.failures = s.failures := by
    refine List.ext_getElem h.failures.length_eq fun i hr hs => ?_
    have hcomponents : r.failures[i].path.components = s.failures[i].path.components := by
      simpa [hr, hs] using congrArg (fun l => l[i]?) h.order
    exact hties _ (h.failures.subset (List.getElem_mem hr)) _ (List.getElem_mem hs) hcomponents
  rw [h.rest, hfailures]

theorem agreesUpToTies_sorted (r : Report) (fingerprint : String) (h : vs'.Perm vs)
    (hfiles : r.files = []) (hfailures : r.failures = [])
    (hties : ∀ a ∈ vs.filterMap Visit.change?, ∀ b ∈ vs.filterMap Visit.change?,
      a.path.components = b.path.components → a = b) :
    ((vs'.foldl add r).withFingerprint fingerprint).sorted.AgreesUpToTies
      ((vs.foldl add r).withFingerprint fingerprint).sorted := by
  have hfailed : (vs'.filterMap Visit.failure?).Perm (vs.filterMap Visit.failure?) :=
    h.filterMap Visit.failure?
  constructor
  · rw [Report.mk.injEq]
    refine ⟨?_, rfl, summary_foldl_add_of_perm r h, rfl⟩
    rw [files_sorted, files_sorted, hfiles, List.nil_append, List.nil_append]
    exact Sorting.mergeSort_eq_of_perm (fun o : Change => o.path.components)
      (h.filterMap Visit.change?) hties
  · rw [failures_sorted, failures_sorted, hfailures, List.nil_append, List.nil_append]
    exact (List.mergeSort_perm _ _).trans (hfailed.trans (List.mergeSort_perm _ _).symm)
  · rw [failures_sorted, failures_sorted, hfailures, List.nil_append, List.nil_append]
    exact Sorting.map_mergeSort_eq_of_perm (fun f : Failure => f.path.components) hfailed

end Report

namespace Job

variable {j : Job} {mode : Mode} {t : FileTree} {path : Path}

theorem readText_of_outcome {o : Change} (h : j.outcome mode t path = .modified o) :
    o.path = path ∧ ∃ text, t.readText path = .ok text := by
  rcases j.outcome_cases mode t path with ⟨-, heq⟩ | ⟨loc, text, hwants, -, heq⟩ | ⟨f, -, heq, -⟩
  · cases heq.symm.trans h
  · cases heq.symm.trans h
    exact ⟨rfl, text, hwants.readText⟩
  · cases heq.symm.trans h

/-- Files that are reported as changed lie apart, so their paths differ in components. -/
theorem eq_of_mem_changes {files : List Path} (hapart : t.Apart files) {a b : Change}
    (ha : a ∈ (files.map (j.outcome mode t)).filterMap Visit.change?)
    (hb : b ∈ (files.map (j.outcome mode t)).filterMap Visit.change?)
    (hcomponents : a.path.components = b.path.components) : a = b := by
  have hfrom : ∀ o ∈ (files.map (j.outcome mode t)).filterMap Visit.change?,
      o.path ∈ files ∧ j.outcome mode t o.path = .modified o := by
    intro o ho
    obtain ⟨v, hv, hchange⟩ := List.mem_filterMap.1 ho
    obtain ⟨p, hp, rfl⟩ := List.mem_map.1 hv
    cases houtcome : j.outcome mode t p with
    | modified o' =>
      rw [houtcome] at hchange
      cases hchange
      obtain ⟨rfl, -⟩ := readText_of_outcome houtcome
      exact ⟨hp, houtcome⟩
    | unchanged | cached | failed f => simp [houtcome, Visit.change?] at hchange
  obtain ⟨hpa, houta⟩ := hfrom a ha
  obtain ⟨hpb, houtb⟩ := hfrom b hb
  obtain ⟨-, text, hreada⟩ := readText_of_outcome houta
  obtain ⟨-, text', hreadb⟩ := readText_of_outcome houtb
  obtain ⟨loc, content, modified, hloca, hlookup, -⟩ :=
    FileTree.readText_eq_ok_iff_lookup.1 hreada
  obtain ⟨loc', _, _, hlocb, -, -⟩ := FileTree.readText_eq_ok_iff_lookup.1 hreadb
  cases FileTree.eq_of_components_eq hcomponents hloca hlocb
  have hreach : t.ReachSame a.path b.path := ⟨loc, content, modified, hloca, hlocb, hlookup⟩
  have hpath : a.path = b.path := by
    by_contra hne
    have : Std.Symm fun p q => ¬t.ReachSame p q := ⟨fun _ _ hne hreach => hne hreach.symm⟩
    exact hapart.forall hpa hpb hne hreach
  rw [hpath, houtb] at houta
  cases houta
  rfl

/-- The order of a list of paths that lead to different files. -/
theorem agreesUpToTies_visitAll (j : Job) (options : Options) (now : Time.Instant)
    {files others : List Path} (hapart : t.Apart files) (hperm : others.Perm files) :
    (j.visitAll { options with failFast := false } now t others).1.AgreesUpToTies
      (j.visitAll { options with failFast := false } now t files).1 := by
  rw [report_visitAll j _ now (.inr hapart), report_visitAll j _ now (.inr (hapart.perm hperm))]
  exact Report.agreesUpToTies_sorted (Report.start options.mode now) j.config.fingerprint
    (hperm.map _) rfl rfl fun a ha b hb => eq_of_mem_changes hapart ha hb

end Job

end ExplicitApi
