import ExplicitApi.Command.Arguments
import ExplicitApi.Config.Decode
import ExplicitApi.Report.Format
import ExplicitApi.Run.Cached
import ExplicitApi.Time.Text

/-! Carrying out what a command line asks for: what is printed, how it ends, and what is written. -/
namespace ExplicitApi.Command

/-- What a run is told about its surroundings. -/
structure Setting where
  now : Time.Instant
  /-- Whether the output goes to a terminal. -/
  isTerminal : Bool

structure Outcome where
  exit : UInt32
  output : String
  errors : String
  tree : FileTree

namespace Outcome

def done (exit : UInt32) (lines : List String) (tree : FileTree) : Outcome :=
  ⟨exit, Report.unlines lines, "", tree⟩

/-- Ends with an error, behind what was printed before it. -/
def failed (output : String) (e : Error) (tree : FileTree) : Outcome :=
  ⟨1, output, Report.unlines ["Error: " ++ e.message], tree⟩

end Outcome

def usage : String := "Usage: visibility-fixer <directory> [--dry-run]"

def versionText : String := "visibility-fixer 0.1.0"

def helpLines : List String :=
  ["Adds explicit public visibility modifiers to Kotlin type and function declarations", "",
    "Usage: visibility-fixer [OPTIONS] [DIRECTORY] [COMMAND]", "",
    "Commands: " ++ ", ".intercalate (Grammar.top.verbs.map Verb.name),
    "Options: " ++ ", ".intercalate (Grammar.top.switches.map fun s => "--" ++ s.long)]

def notDirectory (path : Path) : String := "Error: " ++ path.spelling ++ " is not a directory"

/-- The configuration that is named, or else the one found by its usual names. -/
def configFor (tree : FileTree) : Option Path → Except Error Config
  | some path => Config.load tree path
  | none => Config.ofTree tree

namespace FixRequest

def reportOptions (r : FixRequest) (s : Setting) : Style :=
  ⟨r.colors && s.isTerminal, r.details, none⟩

def runner (r : FixRequest) (config : Option Path) (tree : FileTree) : Except Error Runner := do
  Runner.make (← configFor tree config) tree
    (if r.useCache then some (r.cacheFile.getD Cache.defaultPath) else none)

/-- The lines before a run that is reported for people. -/
def banner (r : FixRequest) (s : Setting) (tree : FileTree) (root : Path) : String :=
  match r.format with
  | .human => Report.banner (r.reportOptions s).colors (tree.absolute root) r.options.mode
  | _ => ""

/-- Fixes the files of a directory, reports on them and saves the cache. -/
def run (r : FixRequest) (s : Setting) (config : Option Path) (tree : FileTree) : Outcome :=
  match r.directory with
  | none => .done 1 [usage] tree
  | some root =>
    if !tree.isDirectory root then .done 1 [notDirectory root] tree
    else
      match r.runner config tree with
      | .error e => .failed "" e tree
      | .ok runner =>
        let banner := r.banner s tree root
        match runner.run r.options r.useCache s.now tree [root] with
        | .error e => .failed banner e tree
        | .ok (report, runner, tree) =>
          let output := banner ++ report.format (r.reportOptions s) r.format
          match runner.save tree s.now with
          | (.error e, _, tree) => .failed output e tree
          | (.ok (), _, tree) => ⟨if report.summary.aborted then 1 else 0, output, "", tree⟩

end FixRequest

namespace CheckRequest

def options (r : CheckRequest) : Job.Options :=
  { mode := .dry, exclude := r.exclude, includes := r.includes }

def reportOptions (s : Setting) : Style := ⟨s.isTerminal, true, none⟩

def report (r : CheckRequest) (s : Setting) (config : Option Path) (tree : FileTree) :
    Except Error (Report × FileTree) := do
  let job ← Job.ofConfig (← configFor tree config)
  job.run r.options s.now tree [r.directory]

/-- Reports on the files of a directory without writing, and exits with 1 if one needs a change. -/
def run (r : CheckRequest) (s : Setting) (config : Option Path) (tree : FileTree) : Outcome :=
  if !tree.isDirectory r.directory then .done 1 [notDirectory r.directory] tree
  else
    match r.report s config tree with
    | .error e => .failed "" e tree
    | .ok (report, tree) =>
      ⟨if report.hasChanges then 1 else 0, report.format (reportOptions s) r.format, "", tree⟩

end CheckRequest

def configLines (c : Config) : List String :=
  ["Configuration is valid", "  Extensions: " ++ ", ".intercalate c.extensions,
    "  Path patterns: " ++ toString c.patterns.length,
    "  Ignore file: " ++ c.ignoreFile.getD "(none)",
    "  Rules enabled: " ++ toString c.rules.enabled.length]

/-- The first of the usual names, for when none of them is there. -/
def usualConfigFile (tree : FileTree) : Path :=
  (Config.usualFile? tree).getD ⟨Config.fileNames.headD ""⟩

def validateConfig (file : Option Path) (tree : FileTree) : Outcome :=
  let path := file.getD (usualConfigFile tree)
  let title := "Validating configuration: " ++ path.spelling
  match Config.load tree path with
  | .ok c => .done 0 (title :: configLines c) tree
  | .error e =>
    ⟨1, Report.unlines [title],
      Report.unlines ["Configuration validation failed: " ++ e.message], tree⟩

def keywordText (kind : Declaration) : String := ", ".intercalate kind.keywords

def explainLines (rules : Rules) (kind : Declaration) : List String :=
  ["Rule: " ++ kind.ruleName, "Enabled: " ++ toString (rules.allows kind), "",
    "Description:", "   " ++ kind.description, "",
    "Keywords: " ++ keywordText kind, "Pattern:", "   " ++ kind.pattern]

def explain (ruleName : String) (config : Option Path) (tree : FileTree) : Outcome :=
  match configFor tree config with
  | .error e => .failed "" e tree
  | .ok c =>
    match Declaration.ofRuleName? ruleName with
    | some kind => .done 0 (explainLines c.rules kind) tree
    | none =>
      ⟨1, Report.unlines ("" :: "Available rules:" ::
          Declaration.all.map fun kind => "  - " ++ kind.ruleName),
        Report.unlines ["Rule '" ++ ruleName ++ "' not found"], tree⟩

def ruleLines (rules : Rules) (kind : Declaration) : List String :=
  let status := if rules.allows kind then "enabled" else "disabled"
  ["  " ++ kind.ruleName ++ " [" ++ status ++ "] - " ++ kind.description,
    "    keywords: " ++ keywordText kind]

def statisticsLines (s : RuleCount) : List String :=
  ["", toString s.enabled ++ " of " ++ toString s.total ++ " rules enabled, matching " ++
    toString s.keywords ++ " keyword phrases"]

def listRules (config : Option Path) (tree : FileTree) : Outcome :=
  match configFor tree config with
  | .error e => .failed "" e tree
  | .ok c =>
    let lines := "Available Rules" :: "" :: Declaration.all.flatMap (ruleLines c.rules)
    match Job.ofConfig c with
    | .error e => .failed (Report.unlines lines) e tree
    | .ok job =>
      .done 0 (lines ++ statisticsLines (.ofRules job.config.rules)) tree

def noCacheFile (path : Path) : String := "No cache file found at " ++ path.spelling

def cacheLines (c : Cache) : List String :=
  let updated := match c.updatedAt with
    | some time => time.display
    | none => "never"
  ["Cache Statistics", "   File: " ++ c.path.spelling,
    "   Files recorded as fixed: " ++ toString c.size,
    "   Configuration fingerprint: " ++ c.fingerprint, "   Updated: " ++ updated]

def cacheStats (path : Path) (tree : FileTree) : Outcome :=
  if !tree.hasPath path then .done 1 [noCacheFile path] tree
  else
    match Cache.openAt tree path with
    | .ok c => .done 0 (cacheLines c) tree
    | .error e => .failed "" e tree

def clearCache (path : Path) (tree : FileTree) : Outcome :=
  match Cache.delete tree path with
  | .ok (true, tree) => .done 0 ["Cache cleared: " ++ path.spelling] tree
  | .ok (false, tree) => .done 0 [noCacheFile path] tree
  | .error e => .failed "" e tree

/-- Drops the entries of files that are gone, and saves the rest. -/
def cleanUpCache (path : Path) (s : Setting) (tree : FileTree) : Outcome :=
  if !tree.hasPath path then .done 1 [noCacheFile path] tree
  else
    match Cache.openAt tree path with
    | .error e => .failed "" e tree
    | .ok c =>
      let pruned := c.withoutMissing tree
      match pruned.save tree s.now with
      | (.ok (), _, tree) =>
        .done 0 ["Cleaned up " ++ toString (c.size - pruned.size) ++ " stale cache entries"] tree
      | (.error e, _, tree) => .failed "" e tree

def runCache (action : CacheAction) (file : Option Path) (s : Setting) (tree : FileTree) :
    Outcome :=
  let path := file.getD Cache.defaultPath
  match action with
  | .stats => cacheStats path tree
  | .clear => clearCache path tree
  | .cleanup => cleanUpCache path s tree

def Invocation.run (i : Invocation) (s : Setting) (tree : FileTree) : Outcome :=
  match i.request with
  | .fix r => r.run s i.config tree
  | .check r => r.run s i.config tree
  | .validateConfig file => validateConfig (file.or i.config) tree
  | .explain ruleName => explain ruleName i.config tree
  | .rules => listRules i.config tree
  | .cache action file => runCache action file s tree

/-- Reads and carries out the words of a command line. -/
def run (words : List String) (s : Setting) (tree : FileTree) : Outcome :=
  match Invocation.ofWords (fun name => tree.isDirectory ⟨name⟩) words with
  | .ok i => i.run s tree
  | .error .misuse => ⟨2, "", Report.unlines [usage], tree⟩
  | .error .help => .done 0 helpLines tree
  | .error .version => .done 0 [versionText] tree

end ExplicitApi.Command
