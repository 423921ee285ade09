import ExplicitApi.Command.Words
import ExplicitApi.Run.Job

/-! What the words of a command line ask for. -/
namespace ExplicitApi.Command

/-- A run that fixes the files of a directory. -/
structure FixRequest where
  directory : Option Path
  options : Job.Options
  format : Layout
  details : Bool
  useCache : Bool
  cacheFile : Option Path
  colors : Bool
  deriving DecidableEq, Repr

structure CheckRequest where
  directory : Path
  format : Layout
  exclude : List String
  includes : List String
  deriving DecidableEq, Repr

inductive CacheAction where
  | stats
  | clear
  | cleanup
  deriving DecidableEq, Repr

inductive Request where
  | fix (request : FixRequest)
  | check (request : CheckRequest)
  | validateConfig (file : Option Path)
  | explain (ruleName : String)
  | rules
  | cache (action : CacheAction) (file : Option Path)
  deriving DecidableEq, Repr

structure Invocation where
  request : Request
  /-- The configuration file that is named. -/
  config : Option Path
  deriving DecidableEq, Repr

namespace Given

def path? (g : Given) (s : Switch) : Option Path := (g.value? s).map Path.mk

def format (g : Given) : Layout :=
  ((g.value? .format).bind Layout.ofName?).getD .human

def fixRequest (g : Given) : FixRequest where
  directory := g.argument.map Path.mk
  options := {
    mode := .ofDry (g.has .dryRun)
    parallel := !g.has .noParallel
    failFast := g.has .failFast
    exclude := g.values .exclude
    includes := g.values .includes
    noIgnore := g.has .noIgnore }
  format := g.format
  details := g.has .details
  useCache := g.has .cache
  cacheFile := g.path? .cacheFile
  colors := !g.has .noColor

end Given

/-- The words behind the name of a command that has no commands of its own. -/
def readLast (verb : Verb) (words : List String) : Except Stop Given := do
  match ← readWords (.ofVerb verb) {} words with
  | (g, none) => return g
  | (_, some _) => throw .misuse

/-- The configuration that the last of several commands in a row names. -/
def configOf (levels : List Given) : Option Path :=
  (levels.filterMap fun g => g.path? .config).getLast?

/-- Help is given on a command that there is. -/
def stopForHelp (grammar : Grammar) (words : List String) : Stop :=
  if grammar.leadsTo words then .help else .misuse

def readCacheAction (outer : Given) (words : List String) : Except Stop Invocation := do
  let (g, behind) ← readWords (.ofVerb .cache) {} words
  let run (action : CacheAction) (verb : Verb) (words : List String) := do
    let last ← readLast verb words
    return ⟨.cache action (last.path? .cacheFile), configOf [outer, g, last]⟩
  match behind with
  | some (.stats, words) => run .stats .stats words
  | some (.clear, words) => run .clear .clear words
  | some (.cleanup, words) => run .cleanup .cleanup words
  | some (.help, words) => throw (stopForHelp (.ofVerb .cache) words)
  | _ => throw .misuse

/-- The request of a command that is named behind other words. -/
def readCommand (outer : Given) (verb : Verb) (words : List String) : Except Stop Invocation := do
  match verb with
  | .check =>
    let g ← readLast verb words
    let some directory := g.argument | throw .misuse
    return ⟨.check ⟨⟨directory⟩, g.format, g.values .exclude, g.values .includes⟩,
      configOf [outer, g]⟩
  | .validateConfig =>
    let g ← readLast verb words
    return ⟨.validateConfig (g.argument.map Path.mk), configOf [outer, g]⟩
  | .explain =>
    let g ← readLast verb words
    let some ruleName := g.argument | throw .misuse
    return ⟨.explain ruleName, configOf [outer, g]⟩
  | .rules =>
    let g ← readLast verb words
    return ⟨.rules, configOf [outer, g]⟩
  | .cache => readCacheAction outer words
  | .help => throw (stopForHelp .top words)
  | .stats | .clear | .cleanup => throw .misuse

/-- Reads words by a grammar; without the name of a command they ask for a run over a directory. -/
def readInvocation (grammar : Grammar) (words : List String) : Except Stop Invocation := do
  match ← readWords grammar {} words with
  | (g, none) => return ⟨.fix (g.fixRequest), configOf [g]⟩
  | (g, some (verb, words)) => readCommand g verb words

/-- Whether a word is an option whose value is the next word. -/
def awaitsValue (word : String) : Bool :=
  Grammar.top.switches.any fun s =>
    s.takesValue && (word == "--" ++ s.long || s.short?.any fun c => word.toList == ['-', c])

/-- The first word that is neither an option nor the value of one. -/
def firstPlain? : List String → Option String
  | [] => none
  | word :: rest =>
    if word = "--" then rest.head?
    else if awaitsValue word then
      match rest with
      | [] => none
      | _ :: rest => firstPlain? rest
    else if word.toList.head? = some '-' then firstPlain? rest
    else some word

/-- The names of commands that a directory may be named like. -/
def commandNames : List String :=
  [Verb.check, .validateConfig, .explain, .rules, .cache].map Verb.name

/--
Reads the words of a command line. A directory that is named like a command comes before it, and a
command that cannot be read is taken for the name of a directory.
-/
def Invocation.ofWords (isDirectory : String → Bool) (words : List String) :
    Except Stop Invocation :=
  let asCommand := readInvocation .top words
  let asDirectory := readInvocation .directoryRun words
  match (firstPlain? words).filter fun word => word ∈ commandNames with
  | none => asCommand
  | some word =>
    if isDirectory word then asDirectory
    else
      match asCommand, asDirectory with
      | .error .misuse, .ok run => .ok run
      | read, _ => read

end ExplicitApi.Command
