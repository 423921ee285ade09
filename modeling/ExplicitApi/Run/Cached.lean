import ExplicitApi.Cache.Codec
import ExplicitApi.Run.Job

/-! Runs that leave out the files known to need no change, and learn which others do not. -/
namespace ExplicitApi

/-- A job and, perhaps, a record of files that need no change. -/
structure Runner where
  job : Job
  cache : Option Cache := none

namespace Runner

/-- The runner of a configuration, with the cache kept at a path if there is one. -/
def make (config : Config) (tree : FileTree) (cachePath : Option Path) : Except Error Runner := do
  let job ← Job.ofConfig config
  match cachePath with
  | none => return { job }
  | some path =>
    return { job, cache := some ((← Cache.openAt tree path).bind config.fingerprint) }

/-- Whether the cache answers for a file; if it cannot tell, it does not. -/
def isKnown (cache : Cache) (tree : FileTree) (path : Path) : Bool :=
  match cache.knows tree path with
  | .ok known => known
  | .error _ => false

/-- The files of a list that a run visited: all of them, or those up to the failure it stopped at. -/
def visited (report : Report) (files : List Path) : List Path :=
  match report.failures with
  | failure :: _ =>
    if report.summary.aborted then
      match files.findIdx? fun path => path.same failure.path with
      | some i => files.take (i + 1)
      | none => files
    else files
  | [] => files

/-- The files that still need a change: those not written and those that failed. -/
def pending (report : Report) : List Path :=
  ((report.files.filter fun o => !o.written).map (·.path)) ++ report.failures.map (·.path)

/-- Records a visited file, or forgets it if it is pending; one that has no stamp stays as it is. -/
def settle (tree : FileTree) (pending : List Path) (cache : Cache) (path : Path) : Cache :=
  if pending.any path.same then cache.drop path
  else
    match cache.learn tree path with
    | .ok cache => cache
    | .error _ => cache

/-- The report on a run that visited the unknown files of a list, and the cache after it. -/
def takeIn (cache : Cache) (known unknown : List Path) (done : Report × FileTree) :
    Report × Cache × FileTree :=
  (known.foldl (fun report _ => report.add .cached) done.1,
    (visited done.1 unknown).foldl (settle done.2 (pending done.1)) cache, done.2)

/-- A run over the files that the cache does not answer for. -/
def runCached (job : Job) (cache : Cache) (options : Job.Options) (now : Time.Instant)
    (tree : FileTree) (paths : List Path) : Except Error (Report × Cache × FileTree) := do
  let files ← job.files options tree paths
  let (known, unknown) := files.partition (isKnown cache tree)
  return takeIn cache known unknown (job.visitAll options now tree unknown)

/-- Visits the files selected by some paths, by the cache if there is one and it is to be used. -/
def run (r : Runner) (options : Job.Options) (useCache : Bool) (now : Time.Instant)
    (tree : FileTree) (paths : List Path) : Except Error (Report × Runner × FileTree) := do
  match r.cache with
  | some cache =>
    if useCache then
      let (report, cache, tree) ← runCached r.job cache options now tree paths
      return (report, { r with cache := some cache }, tree)
    else
      let (report, tree) ← r.job.run options now tree paths
      return (report, r, tree)
  | none =>
    let (report, tree) ← r.job.run options now tree paths
    return (report, r, tree)

/-- Saves the cache if there is one. -/
def save (r : Runner) (tree : FileTree) (now : Time.Instant) :
    Except Error Unit × Runner × FileTree :=
  match r.cache with
  | some cache =>
    let (result, cache, tree) := cache.save tree now
    (result, { r with cache := some cache }, tree)
  | none => (.ok (), r, tree)

end Runner

end ExplicitApi
