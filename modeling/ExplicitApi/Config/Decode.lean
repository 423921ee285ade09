import ExplicitApi.Config.Basic
import ExplicitApi.FileTree.Resolve
import ExplicitApi.Yaml.Scalar

/-! Reading configurations out of YAML texts and files. -/
namespace ExplicitApi.Config

open Yaml (Document Node Scalar)

/-- A value of the wrong shape, with the fields and positions that lead to it, outermost first. -/
structure Misplaced where
  place : List String
  cause : Mismatch

abbrev Decoder (α : Type) := List String → Node → Except Misplaced α

def Misplaced.text (m : Misplaced) : String := String.join m.place

/-- The place of a field of the record at a place. -/
def fieldPlace (place : List String) (name : String) : List String :=
  if place.isEmpty then [name] else place ++ ["." ++ name]

def itemPlace (place : List String) (i : Nat) : List String :=
  place ++ ["[" ++ toString i ++ "]"]

/-- The complaint that a node is not what was wanted. -/
def mismatch (place : List String) (wanted : Wanted) : Node → Misplaced
  | .scalar tag style text =>
    match Scalar.resolve? tag style text with
    | some value => ⟨place, .wrongType value.found wanted⟩
    | none => ⟨place, .wrongValue (.string text) wanted⟩
  | .sequence .. => ⟨place, .wrongType .sequence wanted⟩
  | .mapping .. => ⟨place, .wrongType .map wanted⟩
  | .alias _ => ⟨place, .wrongType .unit wanted⟩

/-- Any scalar is a string by its text. -/
def decodeString (wanted : Wanted) : Decoder String := fun place node =>
  match node with
  | .scalar _ _ text => .ok text
  | node => .error (mismatch place wanted node)

def decodeBoolean : Decoder Bool := fun place node =>
  let refused := Except.error (mismatch place .boolean node)
  match node with
  | .scalar tag style text =>
    if style = .plain ∨ (style = .literal ∧ tag = some Scalar.booleanTag) then
      match Scalar.booleanOf? text with
      | some b => .ok b
      | none => refused
    else refused
  | _ => refused

/-- A plain null, also an empty one, is no string at all. -/
def decodeOptionalString : Decoder (Option String) := fun place node =>
  let present := (decodeString .string place node).map some
  match node with
  | .scalar none .plain text => if text.isEmpty || Scalar.isNullText text then .ok none else present
  | .scalar (some tag) .plain text =>
    if tag = Scalar.nullTag then
      if Scalar.isNullText text then .ok none
      else .error ⟨place, .wrongValue (.string text) .string⟩
    else if text.isEmpty then .ok none
    else present
  | _ => present

/-- The items of a sequence; an empty plain scalar has none. -/
def decodeStrings (d : Document) : Decoder (List String) := fun place node =>
  match node with
  | .sequence _ items =>
    items.zipIdx.mapM fun (item, i) => decodeString .string (itemPlace place i) (d.target item)
  | .scalar _ .plain "" => .ok []
  | node => .error (mismatch place .sequence node)

/-- How a field is read into the parts `σ` that are read so far. -/
structure Field (σ : Type) where
  name : String
  isRead : σ → Bool
  read : List String → Node → σ → Except Misplaced σ

def Field.ofDecoder (name : String) (get : σ → Option α) (set : σ → α → σ) (value : Decoder α) :
    Field σ :=
  ⟨name, fun s => (get s).isSome, fun place node s => (value place node).map (set s)⟩

/-- Reads the known fields of a mapping, each at most once; an empty plain scalar has none. -/
def decodeRecord (d : Document) (record : String) (fields : List (Field σ)) (start : σ) :
    Decoder σ :=
  fun place node =>
    match node with
    | .mapping _ entries =>
      entries.foldlM
        (fun s (k, v) => do
          let name ← decodeString .fieldName place (d.target k)
          match fields.find? fun f => f.name == name with
          | none => return s
          | some f =>
            if f.isRead s then throw ⟨place, .duplicateField name⟩
            f.read (fieldPlace place name) (d.target v) s)
        start
    | .scalar _ .plain "" => .ok start
    | node => .error (mismatch place (.record record) node)

def required (place : List String) (name : String) : Option α → Except Misplaced α
  | some v => .ok v
  | none => .error ⟨place, .missingField name⟩

/-- Whether a rule is enabled, which it is unless the text says otherwise. -/
def decodeToggle (d : Document) : Decoder Bool := fun place node => do
  let found ← decodeRecord d "RuleToggle"
    [.ofDecoder "enabled" (fun s => s) (fun _ b => some b) decodeBoolean] none place node
  return found.getD true

structure RuleParts where
  types : Option Bool := none
  functions : Option Bool := none

def decodeRules (d : Document) : Decoder Rules := fun place node => do
  let p ← decodeRecord d "RuleConfig"
    [.ofDecoder "type_declarations" (·.types) (fun s b => { s with types := some b })
        (decodeToggle d),
      .ofDecoder "function_declarations" (·.functions) (fun s b => { s with functions := some b })
        (decodeToggle d)]
    ({} : RuleParts) place node
  return ⟨p.types.getD true, p.functions.getD true⟩

/-- The paths of a configuration. -/
structure PathParts where
  extensions : Option (List String) := none
  patterns : Option (List String) := none
  ignoreFile : Option (Option String) := none

def decodePaths (d : Document) : Decoder PathParts :=
  decodeRecord d "PathConfig"
    [.ofDecoder "extensions" (·.extensions) (fun s l => { s with extensions := some l })
        (decodeStrings d),
      .ofDecoder "patterns" (·.patterns) (fun s l => { s with patterns := some l })
        (decodeStrings d),
      .ofDecoder "ignore_file" (·.ignoreFile) (fun s name => { s with ignoreFile := some name })
        decodeOptionalString]
    {}

structure Parts where
  version : Option String := none
  paths : Option PathParts := none
  rules : Option Rules := none

def ofDocument (d : Document) : Except Misplaced Config := do
  let p ← decodeRecord d "FixerConfig"
    [.ofDecoder "version" (·.version) (fun s v => { s with version := some v })
        (decodeString .string),
      .ofDecoder "paths" (·.paths) (fun s v => { s with paths := some v }) (decodePaths d),
      .ofDecoder "rules" (·.rules) (fun s v => { s with rules := some v }) (decodeRules d)]
    ({} : Parts) [] (d.target d.root)
  let version ← required [] "version" p.version
  let paths ← required [] "paths" p.paths
  return {
    version
    extensions := paths.extensions.getD [".kt"]
    patterns := paths.patterns.getD []
    ignoreFile := paths.ignoreFile.getD none
    rules := p.rules.getD {} }

/-- Reads a configuration; a text that is no YAML value has no more precise complaint. -/
def parse (text : String) : Except ConfigError Config := do
  let some document := Yaml.parse? text | throw .malformed
  match ofDocument document with
  | .ok c =>
    c.check
    return c
  | .error m => throw (if document.isValue then .mismatch m.text m.cause else .malformed)

def ofText (text : String) : Except Error Config := (parse text).mapError .configuration

/-- Reads the configuration file that a path leads to. -/
def load (tree : FileTree) (path : Path) : Except Error Config :=
  match tree.readText path with
  | .ok text => ofText text
  | .error cause => .error (.configuration (.unreadableFile path cause))

/-- The first file with one of the usual names that is there. -/
def usualFile? (tree : FileTree) : Option Path :=
  (fileNames.map Path.mk).find? tree.hasPath

/-- Reads the first configuration file with one of the usual names, else takes the default. -/
def ofTree (tree : FileTree) : Except Error Config :=
  match usualFile? tree with
  | some path => load tree path
  | none => .ok {}

end ExplicitApi.Config
