import ExplicitApi.Yaml.ScalarText

/-! The tokens of a YAML text. Indentation is told by marks where a block begins and ends. -/
namespace ExplicitApi.Yaml

inductive ScalarStyle where
  | plain
  | quoted
  | literal
  | folded
  deriving DecidableEq, Repr

inductive Token where
  | version (major minor : Nat)
  | tagHandle (handle start : String)
  | documentStart
  | documentEnd
  | blockSequenceStart
  | blockMappingStart
  | blockEnd
  | flowSequenceStart
  | flowSequenceEnd
  | flowMappingStart
  | flowMappingEnd
  | blockEntry
  | flowEntry
  | key
  | value
  | alias (name : String)
  | anchor (name : String)
  | tag (handle suffix : String)
  | scalar (style : ScalarStyle) (text : String)
  deriving DecidableEq, Repr

namespace Token

/-- A number of at most nine digits. -/
def versionNumber? (c : Cursor) : Option (Nat × Cursor) :=
  let (digits, c) := c.takeWhile Char.isDigit
  if digits.isEmpty ∨ 9 < digits.length then none else some (Nat.ofDigitChars 10 digits 0, c)

/-- The bytes written as percent escapes at the start of `s`. -/
def escapedBytes : List Char → List UInt8
  | '%' :: a :: b :: s =>
    match Quoted.hexValue? a, Quoted.hexValue? b with
    | some high, some low => .ofNat (16 * high + low) :: escapedBytes s
    | _, _ => []
  | _ => []

/-- How many bytes the encoding of a character takes by its first byte. -/
def encodedSize (first : UInt8) : Nat :=
  if first < 0x80 then 1
  else if first &&& 0xE0 == 0xC0 then 2
  else if first &&& 0xF0 == 0xE0 then 3
  else if first &&& 0xF8 == 0xF0 then 4
  else 0

/-- The character whose encoding is written as percent escapes, and the size of their text. -/
def escapedChar? (s : List Char) : Option (Char × Nat) := do
  let bytes := escapedBytes s
  let size := encodedSize (← bytes.head?)
  if size = 0 ∨ bytes.length < size then none
  let text ← String.fromUTF8? ⟨(bytes.take size).toArray⟩
  return (← text.toList.head?, 3 * size)

def isUriChar (isVerbatim : Bool) (c : Char) : Bool :=
  isNameChar c || [';', '/', '?', ':', '@', '&', '=', '+', '$', '.', '!', '~', '*', '\'', '(', ')'].contains c ||
    (isVerbatim && [',', '[', ']'].contains c)

def uriChars (isVerbatim : Bool) : Nat → Cursor → Option (List Char × Cursor)
  | 0, c => some ([], c)
  | fuel + 1, c =>
    match c.peek with
    | some '%' => do
      let (d, size) ← escapedChar? c.rest
      let (text, c) ← uriChars isVerbatim fuel (c.skip size)
      return (d :: text, c)
    | some d =>
      if isUriChar isVerbatim d then do
        let (text, c) ← uriChars isVerbatim fuel (c.skip 1)
        return (d :: text, c)
      else some ([], c)
    | none => some ([], c)

def uri (isVerbatim : Bool) (c : Cursor) : Option (List Char × Cursor) :=
  uriChars isVerbatim (c.rest.length + 1) c

/-- An exclamation mark, a name and perhaps another exclamation mark. -/
def tagHandle? (c : Cursor) : Option (List Char × Cursor) :=
  if c.peek = some '!' then
    let (name, c) := (c.skip 1).takeWhile isNameChar
    if c.peek = some '!' then some ('!' :: (name ++ ['!']), c.skip 1) else some ('!' :: name, c)
  else none

/-- A directive whose percent sign is at the cursor. -/
def directive? (c : Cursor) : Option (Token × Cursor) := do
  let (name, c) := (c.skip 1).takeWhile isNameChar
  if name.isEmpty ∨ !isBlankOrEnd c.peek then none
  let c := c.skipWhile isBlank
  match String.ofList name with
  | "YAML" =>
    let (major, c) ← versionNumber? c
    if c.peek ≠ some '.' then none
    let (minor, c) ← versionNumber? (c.skip 1)
    return (.version major minor, ← c.finishLine?)
  | "TAG" =>
    let (handle, c) ← tagHandle? c
    if handle ≠ ['!'] ∧ (handle.getLast? ≠ some '!' ∨ handle.length < 2) then none
    if !c.peek.any isBlank then none
    let (start, c) ← uri true (c.skipWhile isBlank)
    if start.isEmpty ∨ !isBlankOrEnd c.peek then none
    return (.tagHandle (String.ofList handle) (String.ofList start), ← c.finishLine?)
  | _ => none

/-- The name behind the mark of an anchor or alias. -/
def anchorName? (c : Cursor) : Option (String × Cursor) :=
  let (name, c) := (c.skip 1).takeWhile isNameChar
  let ends := isBlankOrEnd c.peek ||
    c.peek.any (['?', ':', ',', ']', '\x7d', '%', '@', '\x60'].contains ·)
  if name.isEmpty ∨ !ends then none else some (String.ofList name, c)

/-- A tag, verbatim in angle brackets, or a handle and the rest of its name. -/
def tag? (inFlow : Bool) (c : Cursor) : Option (Token × Cursor) := do
  let (found, c) ←
    if c.peekAt 1 = some '<' then do
      let (name, c) ← uri true (c.skip 2)
      if name.isEmpty ∨ c.peek ≠ some '>' then none
      pure (Token.tag "" (String.ofList name), c.skip 1)
    else do
      let (handle, next) ← tagHandle? c
      if 1 < handle.length ∧ handle.getLast? = some '!' then
        let (suffix, next) ← uri false next
        if suffix.isEmpty then none
        pure (Token.tag (String.ofList handle) (String.ofList suffix), next)
      else
        let (suffix, next) ← uri false next
        let suffix := handle.drop 1 ++ suffix
        pure (if suffix.isEmpty then Token.tag "" "!" else .tag "!" (String.ofList suffix), next)
  if isBlankOrEnd c.peek || (inFlow && c.peek == some ',') then return (found, c) else none

end Token

/-- A place where a key may have begun that is written without its mark. -/
structure KeyStart where
  /-- Whether the text must go on as a key, standing where the keys of its mapping stand. -/
  isRequired : Bool
  /-- The number of tokens before it. -/
  token : Nat
  index : Nat
  line : Nat
  column : Nat

/-- What is read of a text: its tokens, the open indentations and the places of possible keys. -/
structure Lexer where
  cursor : Cursor
  tokens : Array Token := #[]
  indent : Int := -1
  /-- The indentations around the present one, innermost first. -/
  outer : List Int := []
  /-- A possible key for each open bracket, innermost first, and for the text around them. -/
  keys : List (Option KeyStart) := [none]
  mayStartKey : Bool := true

namespace Lexer

def inFlow (l : Lexer) : Bool := 1 < l.keys.length

def push (l : Lexer) (t : Token) : Lexer := { l with tokens := l.tokens.push t }

def skip (l : Lexer) (n : Nat) : Lexer := { l with cursor := l.cursor.skip n }

/-- Closes the blocks that are indented by more than a column. -/
def unroll (l : Lexer) (column : Int) : Lexer :=
  if l.inFlow then l else go l l.outer
where
  go (l : Lexer) : List Int → Lexer
    | [] => l
    | above :: outer =>
      if column < l.indent then go { l.push .blockEnd with indent := above, outer } outer else l

/-- Opens a block at a column, its mark put before the token of a number, unless it is open. -/
def roll (l : Lexer) (column : Nat) (at? : Option Nat) (t : Token) : Lexer :=
  if l.inFlow ∨ (column : Int) ≤ l.indent then l
  else
    let i := at?.getD l.tokens.size
    { l with
      tokens := l.tokens.insertIdxIfInBounds i t
      indent := column
      outer := l.indent :: l.outer }

/-- Gives up the possible key, which must not have been required. -/
def dropKey (l : Lexer) : Option Lexer :=
  match l.keys with
  | some k :: keys => if k.isRequired then none else some { l with keys := none :: keys }
  | _ => some l

/-- Notes that a key may begin here. -/
def saveKey (l : Lexer) : Option Lexer :=
  if l.mayStartKey then do
    let l ← l.dropKey
    let start : KeyStart :=
      ⟨!l.inFlow && l.indent == l.cursor.column, l.tokens.size, l.cursor.index, l.cursor.line,
        l.cursor.column⟩
    return { l with keys := some start :: l.keys.tail }
  else some l

/-- The longest key that is written without its mark. -/
def maxKeyLength : Nat := 1024

/-- The possible key, if it began on this line and not too far away. -/
def currentKey (l : Lexer) : Option (Option KeyStart) :=
  match l.keys with
  | some k :: _ =>
    if k.line < l.cursor.line ∨ k.index + maxKeyLength < l.cursor.index then
      if k.isRequired then none else some none
    else some (some k)
  | _ => some none

/-- Skips blanks, comments and line breaks; a new line may start a key. -/
def toNextToken : Nat → Lexer → Lexer
  | 0, l => l
  | fuel + 1, l =>
    let tabs := l.inFlow || !l.mayStartKey
    let c := l.cursor.skipWhile fun d => d == ' ' || (tabs && d == '\t')
    let c := if c.peek = some '#' then c.skipWhile fun d => !isBreak d else c
    if c.peek.any isBreak then
      toNextToken fuel
        { l with cursor := c.takeBreak.2, mayStartKey := l.mayStartKey || !l.inFlow }
    else { l with cursor := c }

def openFlow (l : Lexer) (t : Token) : Option Lexer := do
  let l ← l.saveKey
  return { (l.push t).skip 1 with keys := none :: l.keys, mayStartKey := true }

def closeFlow (l : Lexer) (t : Token) : Option Lexer := do
  let l ← l.dropKey
  let keys := if l.inFlow then l.keys.tail else l.keys
  return { (l.push t).skip 1 with keys, mayStartKey := false }

def blockEntry (l : Lexer) : Option Lexer := do
  if !l.inFlow && !l.mayStartKey then none
  let l ← (l.roll l.cursor.column none .blockSequenceStart).dropKey
  return { (l.push .blockEntry).skip 1 with mayStartKey := true }

def explicitKey (l : Lexer) : Option Lexer := do
  if !l.inFlow && !l.mayStartKey then none
  let l ← (l.roll l.cursor.column none .blockMappingStart).dropKey
  return { (l.push .key).skip 1 with mayStartKey := !l.inFlow }

/-- A value, which makes a key of what began at the possible key. -/
def valueMark (l : Lexer) : Option Lexer := do
  match ← l.currentKey with
  | some k =>
    let l := { l with
      tokens := l.tokens.insertIdxIfInBounds k.token .key
      keys := none :: l.keys.tail }
    let l := l.roll k.column (some k.token) .blockMappingStart
    return { (l.push .value).skip 1 with mayStartKey := false }
  | none =>
    let l := { l with keys := none :: l.keys.tail }
    if !l.inFlow && !l.mayStartKey then none
    let l := l.roll l.cursor.column none .blockMappingStart
    return { (l.push .value).skip 1 with mayStartKey := !l.inFlow }

/-- A token that may begin a key, and behind which none begins on the same line. -/
def keyToken (l : Lexer) (read : Lexer → Option (Token × Cursor)) : Option Lexer := do
  let l ← l.saveKey
  let (t, c) ← read l
  return { l.push t with cursor := c, mayStartKey := false }

def plainScalar (l : Lexer) : Option Lexer := do
  let l ← l.saveKey
  let c := l.cursor
  let (text, isBroken, c) ← Plain.read l.inFlow (l.indent + 1) (c.rest.length + 1) [] {} c
  return { l.push (.scalar .plain (String.ofList text)) with cursor := c, mayStartKey := isBroken }

def quotedScalar (isSingle : Bool) (l : Lexer) : Option (Token × Cursor) := do
  let c := l.cursor.skip 1
  let (text, c) ← Quoted.read isSingle (c.rest.length + 1) [] c
  return (.scalar .quoted (String.ofList text), c)

def blockScalar (style : ScalarStyle) (l : Lexer) : Option Lexer := do
  let l ← l.dropKey
  let (text, c) ← Block.read (style == .literal) l.indent (l.cursor.skip 1)
  return { l.push (.scalar style (String.ofList text)) with cursor := c, mayStartKey := true }

/-- A mark between documents, which closes all blocks. -/
def documentMarks (l : Lexer) (t : Token) : Option Lexer := do
  let l ← (l.unroll (-1)).dropKey
  return { (l.push t).skip 3 with mayStartKey := false }

/-- Marks that begin no plain scalar. -/
def indicators : List Char :=
  ['-', '?', ':', ',', '[', ']', '\x7b', '\x7d', '#', '&', '*', '!', '|', '>', '\'', '"', '%',
    '@', '\x60']

def startsPlain (l : Lexer) (c : Char) : Bool :=
  let next := l.cursor.peekAt 1
  !indicators.contains c && !isBlank c || c == '-' && !next.any isBlank ||
    (!l.inFlow && (c == '?' || c == ':') && !isBlankOrEnd next)

/-- Reads the next token, whose first character is `c`. -/
def next (l : Lexer) (c : Char) : Option Lexer :=
  let isSeparate := isBlankOrEnd (l.cursor.peekAt 1)
  if l.cursor.column = 0 ∧ c = '%' then do
    let l ← (l.unroll (-1)).dropKey
    let (t, c) ← Token.directive? l.cursor
    return { l.push t with cursor := c, mayStartKey := false }
  else if l.cursor.isAtMarks '-' then l.documentMarks .documentStart
  else if l.cursor.isAtMarks '.' then l.documentMarks .documentEnd
  else match c with
    | '[' => l.openFlow .flowSequenceStart
    | '\x7b' => l.openFlow .flowMappingStart
    | ']' => l.closeFlow .flowSequenceEnd
    | '\x7d' => l.closeFlow .flowMappingEnd
    | ',' => do
      let l ← l.dropKey
      return { (l.push .flowEntry).skip 1 with mayStartKey := true }
    | '*' => l.keyToken fun l => (Token.anchorName? l.cursor).map fun (n, c) => (.alias n, c)
    | '&' => l.keyToken fun l => (Token.anchorName? l.cursor).map fun (n, c) => (.anchor n, c)
    | '!' => l.keyToken fun l => Token.tag? l.inFlow l.cursor
    | '\'' => l.keyToken (quotedScalar true)
    | '"' => l.keyToken (quotedScalar false)
    | c =>
      if c = '-' ∧ isSeparate then l.blockEntry
      else if c = '?' ∧ (l.inFlow ∨ isSeparate) then l.explicitKey
      else if c = ':' ∧ (l.inFlow ∨ isSeparate) then l.valueMark
      else if c = '|' ∧ !l.inFlow then l.blockScalar .literal
      else if c = '>' ∧ !l.inFlow then l.blockScalar .folded
      else if l.startsPlain c then l.plainScalar
      else none

/-- Reads tokens to the end of the text, where all blocks close. -/
def run : Nat → Lexer → Option (Array Token)
  | 0, _ => none
  | fuel + 1, l => do
    let l := l.toNextToken (l.cursor.rest.length + 1)
    match l.cursor.peek with
    | none =>
      let l ← (l.unroll (-1)).dropKey
      return l.tokens
    | some c => run fuel (← (l.unroll l.cursor.column).next c)

end Lexer

/-- The tokens of a text, if it is written correctly. -/
def tokens? (text : String) : Option (List Token) :=
  let s := text.toList
  if s.all isAllowed then
    (Lexer.run (s.length + 1) { cursor := { rest := s } }).map Array.toList
  else none

end ExplicitApi.Yaml
