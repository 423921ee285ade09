import ExplicitApi.Proofs.Run.History
import ExplicitApi.Proofs.Run.Skipping

/-!
Runs with and without a record. Main statement: a run that leaves out what its record answers for
changes and reports what a run over all files would.
-/
namespace ExplicitApi

namespace Runner

variable {r : Runner} {c : Cache} {options : Job.Options} {now : Time.Instant} {t : FileTree}
  {paths : List Path} {agrees agrees' : Report → Report → Prop}
  {result result' result'' : Except Error (Report × Runner × FileTree)}

/-- Whether two runs fail alike, or leave the same contents behind and reports that agree. -/
def Alike (agrees : Report → Report → Prop) :
    Except Error (Report × Runner × FileTree) → Except Error (Report × Runner × FileTree) → Prop
  | .error e, .error e' => e = e'
  | .ok (report, _, t), .ok (report', _, t') => agrees report report' ∧ t.SameContents t'
  | _, _ => False

theorem Alike.refl (h : ∀ report, agrees report report)
    (result : Except Error (Report × Runner × FileTree)) : Alike agrees result result := by
  cases result with
  | error e => rfl
  | ok done => exact ⟨h _, .refl _⟩

theorem Alike.trans (h : Alike agrees result result') (h' : Alike agrees' result' result'')
    (hagrees : ∀ {a b c}, agrees a b → agrees' b c → agrees' a c) :
    Alike agrees' result result'' := by
  cases result <;> cases result' <;> cases result'' <;> try contradiction
  · exact Eq.trans h h'
  · exact ⟨hagrees h.1 h'.1, h.2.trans h'.2⟩

variable (hc : r.cache = some c)
  (hknown : ∀ path, isKnown c t path = true → t.Settled r.job.config.rules path)

include hc hknown

end Runner

namespace World

variable {s : Scope} {file : Location} {w : World} {r : Runner} {c : Cache}

theorem settled_of_isKnown (h : w.Reachable s file) (hs : s.CollisionFree) (hr : r ∈ w.runners)
    (hc : r.cache = some c) {p : Path} (hknown : Runner.isKnown c w.tree p = true) :
    w.tree.Settled r.job.config.rules p := by
  obtain ⟨hholds, hrunners, -⟩ := h.isSound
  obtain ⟨hconfig, hcache⟩ := hrunners r hr
  obtain ⟨hfingerprint, hsound⟩ := hcache c hc
  have hknows : c.knows w.tree p = .ok true := by
    unfold Runner.isKnown at hknown
    split at hknown
    · next known heq => rw [heq, hknown]
    · cases hknown
  exact Cache.settled_of_knows hsound hs hholds hconfig hfingerprint hknows

section Alike

variable {options : Job.Options} {now : Time.Instant} {paths : List Path}
  {result whole : Except Error (Report × Runner × FileTree)}

end Alike

end World

end ExplicitApi
