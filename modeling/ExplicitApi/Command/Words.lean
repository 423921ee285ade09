import ExplicitApi.Report.Format

/-!
The words of a command line: options with their values, one argument, and the name of a command,
behind which the words belong to that command.
-/
namespace ExplicitApi.Command

inductive Switch where
  | dryRun
  | format
  | details
  | exclude
  | includes
  | noIgnore
  | noParallel
  | failFast
  | cache
  | cacheFile
  | noColor
  | verbose
  | config
  | help
  | version
  deriving DecidableEq, Repr

namespace Switch

def long : Switch → String
  | dryRun => "dry-run"
  | format => "format"
  | details => "details"
  | exclude => "exclude"
  | includes => "include"
  | noIgnore => "no-ignore"
  | noParallel => "no-parallel"
  | failFast => "fail-fast"
  | cache => "cache"
  | cacheFile => "cache-file"
  | noColor => "no-color"
  | verbose => "verbose"
  | config => "config"
  | help => "help"
  | version => "version"

def short? : Switch → Option Char
  | format => some 'f'
  | verbose => some 'v'
  | config => some 'c'
  | help => some 'h'
  | version => some 'V'
  | _ => none

def takesValue : Switch → Bool
  | format | exclude | includes | cacheFile | config => true
  | _ => false

/-- Whether it may stand more than once among the words of one command. -/
def isRepeatable : Switch → Bool
  | exclude | includes => true
  | _ => false

/-- Formats go by their exact names, and a file has a name that is not empty. -/
def allowsValue : Switch → String → Bool
  | format, value => (Layout.ofName? value).isSome
  | cacheFile, value | config, value => value != ""
  | _, _ => true

end Switch

inductive Verb where
  | check
  | validateConfig
  | explain
  | rules
  | cache
  | stats
  | clear
  | cleanup
  | help
  deriving DecidableEq, Repr

def Verb.name : Verb → String
  | check => "check"
  | validateConfig => "validate-config"
  | explain => "explain"
  | rules => "rules"
  | cache => "cache"
  | stats => "stats"
  | clear => "clear"
  | cleanup => "cleanup"
  | help => "help"

inductive ArgumentKind where
  | path
  | text
  deriving DecidableEq, Repr

/-- What may stand among the words of one command. -/
structure Grammar where
  switches : List Switch
  argument : Option ArgumentKind
  verbs : List Verb

namespace Grammar

def switchOfLong? (g : Grammar) (name : String) : Option Switch :=
  g.switches.find? fun s => s.long == name

def switchOfShort? (g : Grammar) (c : Char) : Option Switch :=
  g.switches.find? fun s => s.short? == some c

def verb? (g : Grammar) (name : String) : Option Verb := g.verbs.find? fun v => v.name == name

/-- Options that may also stand behind a command's name. -/
def everywhere : List Switch := [.verbose, .config, .help]

def ofVerb : Verb → Grammar
  | .check => ⟨[.format, .exclude, .includes] ++ everywhere, some .path, []⟩
  | .validateConfig => ⟨everywhere, some .path, []⟩
  | .explain => ⟨everywhere, some .text, []⟩
  | .rules => ⟨everywhere, none, []⟩
  | .cache => ⟨everywhere, none, [.stats, .clear, .cleanup, .help]⟩
  | .stats | .clear | .cleanup => ⟨.cacheFile :: everywhere, none, []⟩
  | .help => ⟨[], none, []⟩

/-- Whether words are the names of a command and of the commands in it that lead to another one. -/
def leadsTo (g : Grammar) : List String → Bool
  | [] => true
  | word :: rest => (g.verb? word).any fun verb => (ofVerb verb).leadsTo rest

/-- A run over a directory, without commands. -/
def directoryRun : Grammar where
  switches := [.dryRun, .format, .details, .exclude, .includes, .noIgnore, .noParallel, .failFast,
    .cache, .cacheFile, .noColor, .version] ++ everywhere
  argument := some .path
  verbs := []

/-- A run over a directory, or one of the commands. -/
def top : Grammar :=
  { directoryRun with verbs := [.check, .validateConfig, .explain, .rules, .cache, .help] }

end Grammar

/-- Why words are not carried out. -/
inductive Stop where
  | misuse
  | help
  | version
  deriving DecidableEq, Repr

/-- What is given before the name of a command or the end of the words. -/
structure Given where
  switches : List (Switch × String) := []
  argument : Option String := none
  deriving DecidableEq, Repr

namespace Given

def has (g : Given) (s : Switch) : Bool := g.switches.any fun given => given.1 == s

/-- The values of an option, in the order in which they are given. -/
def values (g : Given) (s : Switch) : List String :=
  (g.switches.filter fun given => given.1 == s).map (·.2)

def value? (g : Given) (s : Switch) : Option String := (g.values s).head?

/-- Takes in an option, with an empty value if it has none. -/
def addSwitch (g : Given) (s : Switch) (value : String) : Except Stop Given :=
  match s with
  | .help => .error .help
  | .version => .error .version
  | s =>
    if (g.has s && !s.isRepeatable) || !s.allowsValue value then .error .misuse
    else .ok { g with switches := g.switches ++ [(s, value)] }

/-- Takes in the one argument; a path is not empty. -/
def addArgument (grammar : Grammar) (g : Given) (value : String) : Except Stop Given :=
  match grammar.argument, g.argument with
  | some .path, none => if value = "" then .error .misuse else .ok { g with argument := value }
  | some .text, none => .ok { g with argument := value }
  | _, _ => .error .misuse

/-- Reads an option by its long name, and tells whether it waits for the next word as its value. -/
def readLong (grammar : Grammar) (g : Given) (body : List Char) :
    Except Stop (Given × Option Switch) := do
  let name := body.takeWhile (· != '=')
  let some s := grammar.switchOfLong? (String.ofList name) | throw .misuse
  match body.drop name.length, s.takesValue with
  | [], true => return (g, some s)
  | [], false => return (← g.addSwitch s "", none)
  | _ :: value, true => return (← g.addSwitch s (String.ofList value), none)
  | _ :: _, false => throw .misuse

/-- The value written directly behind a short name, perhaps with a sign between them. -/
def attached : List Char → List Char
  | '=' :: value => value
  | value => value

/-- Reads short names that share a word; what follows one that takes a value is its value. -/
def readShort (grammar : Grammar) (g : Given) : List Char → Except Stop (Given × Option Switch)
  | [] => .ok (g, none)
  | c :: rest =>
    match grammar.switchOfShort? c with
    | none => .error .misuse
    | some s =>
      if s.takesValue then
        if rest = [] then .ok (g, some s)
        else (g.addSwitch s (String.ofList (attached rest))).map (·, none)
      else
        match g.addSwitch s "" with
        | .ok g => readShort grammar g rest
        | .error e => .error e

end Given

inductive WordKind where
  | plain
  /-- Behind this word all others are arguments. -/
  | divider
  | long (body : List Char)
  | short (names : List Char)
  deriving DecidableEq, Repr

def WordKind.ofWord (word : String) : WordKind :=
  match word.toList with
  | ['-', '-'] => divider
  | '-' :: '-' :: body => long body
  | '-' :: c :: names => short (c :: names)
  | _ => plain

def readSwitch (grammar : Grammar) (g : Given) : WordKind → Except Stop (Given × Option Switch)
  | .long body => g.readLong grammar body
  | .short names => g.readShort grammar names
  | _ => .error .misuse

/-- Reads words up to the name of a command, which is given together with the words behind it. -/
def readWords (grammar : Grammar) (g : Given) :
    List String → Except Stop (Given × Option (Verb × List String))
  | [] => .ok (g, none)
  | word :: rest =>
    match WordKind.ofWord word with
    | .plain =>
      match grammar.verb? word with
      | some verb => .ok (g, some (verb, rest))
      | none => do readWords grammar (← g.addArgument grammar word) rest
    | .divider => (rest.foldlM (Given.addArgument grammar) g).map (·, none)
    | kind => do
      match ← readSwitch grammar g kind with
      | (g, none) => readWords grammar g rest
      | (g, some s) =>
        match rest with
        | [] => throw .misuse
        | value :: rest =>
          if WordKind.ofWord value = .plain then
            readWords grammar (← g.addSwitch s value) rest
          else throw .misuse

end ExplicitApi.Command
