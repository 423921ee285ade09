import ExplicitApi.Yaml.Token

/-! The document of a YAML text: scalars, sequences and mappings, and aliases of nodes in it. -/
namespace ExplicitApi.Yaml

inductive Node where
  | scalar (tag : Option String) (style : ScalarStyle) (text : String)
  | sequence (tag : Option String) (items : List Node)
  | mapping (tag : Option String) (entries : List (Node × Node))
  /-- A node that stands elsewhere, by the number of its anchor; it may be one around this place. -/
  | alias (number : Nat)
  deriving Repr, Inhabited

namespace Node

/-- The scalar that is meant where nothing is written. -/
def empty : Node := .scalar none .plain ""

/-- What is left to read, the tag handles in force, and the anchors with their nodes. -/
structure State where
  tokens : List Token
  handles : List (String × String) := []
  /-- Names of anchors with the numbers that they stand for. -/
  anchors : List (String × Nat) := []
  /-- The numbers under which anchored nodes were begun, and their places in that order, latest first. -/
  begun : List (Nat × Nat) := []
  /-- The anchored nodes that are complete, by their places. -/
  complete : List (Nat × Node) := []

abbrev Parser := StateT State Option

def fail : Parser α := fun _ => none

def peek : Parser (Option Token) := do return (← get).tokens.head?

def drop : Parser Unit := modify fun s => { s with tokens := s.tokens.tail }

/-- Whether the next token is one of those given; nothing is when the text is at its end. -/
def nextIsOneOf (ts : List Token) : Parser Bool := do return (← peek).any ts.contains

/-- Skips the next token if it is the one given. -/
def accept (t : Token) : Parser Bool := do
  if (← peek) == some t then
    drop
    return true
  else return false

def expect (t : Token) : Parser Unit := do
  if !(← accept t) then fail

/-- An anchor and a tag, in either order. -/
structure Properties where
  anchor : Option String := none
  tag : Option String := none

def resolveTag (handle suffix : String) : Parser String := do
  if handle.isEmpty then return suffix
  match (← get).handles.lookup handle with
  | some start => return start ++ suffix
  | none => fail

def property (p : Properties) : Parser Properties := do
  match ← peek, p.anchor, p.tag with
  | some (.anchor name), none, _ =>
    drop
    return { p with anchor := some name }
  | some (.tag handle suffix), _, none =>
    drop
    return { p with tag := some (← resolveTag handle suffix) }
  | _, _, _ => return p

/--
Binds an anchor whose node is still to be read, and gives the place of the node. Its number tells how
many names were bound before it, which are fewer than anchors when names are bound again.
-/
def openAnchor (anchor : Option String) : Parser (Option Nat) := do
  match anchor with
  | none => return none
  | some name =>
    let s ← get
    let number := s.anchors.length
    let place := s.begun.length
    set { s with
      anchors := (name, number) :: s.anchors.filter (·.1 != name)
      begun := (number, place) :: s.begun }
    return some place

def closeAnchor (place : Option Nat) (node : Node) : Parser Node := do
  match place with
  | none => return node
  | some place =>
    modify fun s => { s with complete := (place, node) :: s.complete }
    return node

def aliased (name : String) : Parser Node := do
  let s ← get
  match s.anchors.lookup name with
  | none => fail
  | some number => return .alias number

/-- The tag of a scalar, the lone exclamation mark being none. -/
def scalarTag (tag : Option String) : Option String := tag.filter (· != "!")

mutual

/-- Reads a node; block collections may be without their own indentation where that is said. -/
def node (isBlock isIndentless : Bool) : Nat → Parser Node
  | 0 => fail
  | fuel + 1 => do
    match ← peek with
    | some (.alias name) =>
      drop
      aliased name
    | _ =>
      let p ← property (← property {})
      let anchor ← openAnchor p.anchor
      match ← peek with
      | some .blockEntry =>
        if isIndentless then closeAnchor anchor (.sequence p.tag (← indentlessItems fuel))
        else bare p anchor
      | some (.scalar style text) =>
        drop
        closeAnchor anchor (.scalar (scalarTag p.tag) style text)
      | some .flowSequenceStart =>
        drop
        closeAnchor anchor (.sequence p.tag (← flowItems true fuel))
      | some .flowMappingStart =>
        drop
        closeAnchor anchor (.mapping p.tag (← flowEntries true fuel))
      | some .blockSequenceStart =>
        if isBlock then
          drop
          closeAnchor anchor (.sequence p.tag (← blockItems fuel))
        else bare p anchor
      | some .blockMappingStart =>
        if isBlock then
          drop
          closeAnchor anchor (.mapping p.tag (← blockEntries fuel))
        else bare p anchor
      | _ => bare p anchor

/-- A node, or nothing where one of `ends` comes next. -/
def nodeBefore (ends : List Token) (isBlock isIndentless : Bool) : Nat → Parser Node
  | 0 => fail
  | fuel + 1 => do
    if ← nextIsOneOf ends then return empty else node isBlock isIndentless fuel

def blockItems : Nat → Parser (List Node)
  | 0 => fail
  | fuel + 1 => do
    if ← accept .blockEntry then
      let item ← nodeBefore [.blockEntry, .blockEnd] true false fuel
      return item :: (← blockItems fuel)
    else
      expect .blockEnd
      return []

def indentlessItems : Nat → Parser (List Node)
  | 0 => fail
  | fuel + 1 => do
    if ← accept .blockEntry then
      let item ← nodeBefore [.blockEntry, .key, .value, .blockEnd] true false fuel
      return item :: (← indentlessItems fuel)
    else return []

def blockEntries : Nat → Parser (List (Node × Node))
  | 0 => fail
  | fuel + 1 => do
    let ends := [.key, .value, .blockEnd]
    if ← accept .key then
      let k ← nodeBefore ends true true fuel
      let v ← if ← accept .value then nodeBefore ends true true fuel else pure empty
      return (k, v) :: (← blockEntries fuel)
    else
      expect .blockEnd
      return []

/-- The items of a bracketed sequence; a key in it makes a mapping of one entry. -/
def flowItems (isFirst : Bool) : Nat → Parser (List Node)
  | 0 => fail
  | fuel + 1 => do
    if ← accept .flowSequenceEnd then return []
    if !isFirst then expect .flowEntry
    if ← accept .key then
      let k ←
        if ← nextIsOneOf [.value, .flowEntry, .flowSequenceEnd] then do
          drop
          pure empty
        else node false false fuel
      let v ←
        if ← accept .value then nodeBefore [.flowEntry, .flowSequenceEnd] false false fuel
        else pure empty
      return .mapping none [(k, v)] :: (← flowItems false fuel)
    else if ← accept .flowSequenceEnd then return []
    else
      let item ← node false false fuel
      return item :: (← flowItems false fuel)

def flowEntries (isFirst : Bool) : Nat → Parser (List (Node × Node))
  | 0 => fail
  | fuel + 1 => do
    let ends := [.flowEntry, .flowMappingEnd]
    if ← accept .flowMappingEnd then return []
    if !isFirst then expect .flowEntry
    if ← accept .key then
      let k ← nodeBefore (.value :: ends) false false fuel
      let v ← if ← accept .value then nodeBefore ends false false fuel else pure empty
      return (k, v) :: (← flowEntries false fuel)
    else if ← accept .flowMappingEnd then return []
    else
      let k ← node false false fuel
      return (k, empty) :: (← flowEntries false fuel)

/-- An empty scalar that has an anchor or a tag. -/
def bare (p : Properties) (anchor : Option Nat) : Parser Node := do
  if p.anchor.isNone && p.tag.isNone then fail
  closeAnchor anchor (.scalar (scalarTag p.tag) .plain "")

end

/-- Tag handles that need no directive. -/
def standardHandles : List (String × String) := [("!", "!"), ("!!", "tag:yaml.org,2002:")]

/-- Directives in front of a document, each given once; tells whether there were any. -/
def directives : Nat → Bool → List (String × String) → Parser (Bool × List (String × String))
  | 0, _, _ => fail
  | fuel + 1, hasVersion, handles => do
    match ← peek with
    | some (.version major minor) =>
      if hasVersion ∨ major ≠ 1 ∨ (minor ≠ 1 ∧ minor ≠ 2) then fail
      drop
      directives fuel true handles
    | some (.tagHandle handle start) =>
      if (handles.lookup handle).isSome then fail
      drop
      directives fuel hasVersion ((handle, start) :: handles)
    | _ => return (hasVersion || !handles.isEmpty, handles)

/-- The only document of a stream, which may be empty. -/
def document (fuel : Nat) : Parser Node := do
  if (← peek).isNone then return empty
  let (hasDirectives, handles) ← directives fuel false []
  modify fun s => { s with handles := handles ++ standardHandles }
  let isExplicit ← accept .documentStart
  if hasDirectives && !isExplicit then fail
  let isEmpty := isExplicit &&
    (← peek).all fun
      | .version .. | .tagHandle .. | .documentStart | .documentEnd => true
      | _ => false
  let found ← if isEmpty then pure empty else node true false fuel
  modify fun s => { s with tokens := s.tokens.dropWhile (· == .documentEnd) }
  if (← peek).isSome then fail
  return found

end Node

/-- A node with those that aliases in it stand for. -/
structure Document where
  root : Node
  begun : List (Nat × Nat)
  complete : List (Nat × Node)

/-- What a node is, or what it stands for if it is an alias: the node begun last under its number. -/
def Document.target (d : Document) : Node → Node
  | .alias number => ((d.begun.lookup number).bind fun place => d.complete.lookup place).getD .empty
  | node => node

/-- The document of a text that has just one. -/
def parse? (text : String) : Option Document := do
  let tokens ← tokens? text
  let (root, s) ← (Node.document (4 * tokens.length + 4)).run { tokens }
  return ⟨root, s.begun, s.complete⟩

end ExplicitApi.Yaml
