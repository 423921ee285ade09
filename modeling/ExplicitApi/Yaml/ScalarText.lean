import ExplicitApi.Yaml.Cursor

/-! The texts of scalars: plain, quoted, or in a block of lines. -/
namespace ExplicitApi.Yaml

/-- The white space since the last visible character of a scalar. -/
structure Gap where
  blanks : List Char := []
  firstBreak : List Char := []
  laterBreaks : List Char := []
  /-- Whether the gap goes over the end of a line. -/
  isBroken : Bool := false

namespace Gap

/-- What a gap is read as: a single line break as a blank, several as one less. -/
def text (g : Gap) : List Char :=
  if g.isBroken then
    if g.firstBreak = ['\n'] then
      if g.laterBreaks = [] then [' '] else g.laterBreaks
    else g.firstBreak ++ g.laterBreaks
  else g.blanks

def addBreak (g : Gap) (b : List Char) : Gap :=
  if g.isBroken then { g with laterBreaks := g.laterBreaks ++ b }
  else { g with blanks := [], firstBreak := b, isBroken := true }

/-- Reads white space; a tab must not indent a line to less than `indent`. -/
def read (indent : Int) : Nat → Gap → Cursor → Option (Gap × Cursor)
  | 0, g, c => some (g, c)
  | fuel + 1, g, c =>
    match c.peek with
    | none => some (g, c)
    | some d =>
      if isBlank d then
        if g.isBroken && (c.column : Int) < indent && d == '\t' then none
        else
          let g := if g.isBroken then g else { g with blanks := g.blanks ++ [d] }
          read indent fuel g (c.skip 1)
      else if isBreak d then
        let (b, c) := c.takeBreak
        read indent fuel (g.addBreak b) c
      else some (g, c)

end Gap

namespace Plain

def isFlowIndicator (c : Char) : Bool := c == ',' || c == '[' || c == ']' || c == '\x7b' || c == '\x7d'

/-- The visible characters up to one that ends the scalar; a colon must not touch flow marks. -/
def run (inFlow : Bool) : List Char → Option (List Char)
  | [] => some []
  | c :: s =>
    if isBlank c || isBreak c then some []
    else if inFlow && c == ':' && s.head?.any (fun d => isFlowIndicator d || d == '?') then none
    else if (c == ':' && isBlankOrEnd s.head?) || (inFlow && isFlowIndicator c) then some []
    else (run inFlow s).map (c :: ·)

/-- A scalar's text, whether its last gap goes over a line's end, and where it ends. -/
def read (inFlow : Bool) (indent : Int) :
    Nat → List Char → Gap → Cursor → Option (List Char × Bool × Cursor)
  | 0, text, g, c => some (text, g.isBroken, c)
  | fuel + 1, text, g, c =>
    if c.isAtDocumentMarks || c.peek = some '#' then some (text, g.isBroken, c)
    else do
      let visible ← run inFlow c.rest
      let (text, g) := if visible.isEmpty then (text, g) else (text ++ g.text ++ visible, {})
      let c := c.skip visible.length
      if c.isAtEnd || !isBlankOrEnd c.peek then return (text, g.isBroken, c)
      let (g, c) ← g.read indent (c.rest.length + 1) c
      if !inFlow && (c.column : Int) < indent then return (text, g.isBroken, c)
      read inFlow indent fuel text g c

end Plain

namespace Quoted

def hexValue? (c : Char) : Option Nat :=
  if '0' ≤ c ∧ c ≤ '9' then some (c.toNat - '0'.toNat)
  else if 'a' ≤ c ∧ c ≤ 'f' then some (c.toNat - 'a'.toNat + 10)
  else if 'A' ≤ c ∧ c ≤ 'F' then some (c.toNat - 'A'.toNat + 10)
  else none

/-- The character of a number in exactly `size` hexadecimal digits. -/
def coded? (size : Nat) (s : List Char) : Option Char := do
  let digits ← (s.take size).mapM hexValue?
  if digits.length < size then none
  let n := digits.foldl (fun n d => 16 * n + d) 0
  if h : n.isValidChar then return Char.ofNatAux n h else none

/-- The character of an escape and how many characters it takes, the backslash included. -/
def escape? : List Char → Option (Char × Nat)
  | '0' :: _ => some ('\x00', 2)
  | 'a' :: _ => some ('\x07', 2)
  | 'b' :: _ => some ('\x08', 2)
  | 't' :: _ | '\t' :: _ => some ('\t', 2)
  | 'n' :: _ => some ('\n', 2)
  | 'v' :: _ => some ('\x0b', 2)
  | 'f' :: _ => some ('\x0c', 2)
  | 'r' :: _ => some ('\r', 2)
  | 'e' :: _ => some ('\x1b', 2)
  | ' ' :: _ => some (' ', 2)
  | '"' :: _ => some ('"', 2)
  | '/' :: _ => some ('/', 2)
  | '\\' :: _ => some ('\\', 2)
  | 'N' :: _ => some ('\u0085', 2)
  | '_' :: _ => some ('\u00a0', 2)
  | 'L' :: _ => some ('\u2028', 2)
  | 'P' :: _ => some ('\u2029', 2)
  | 'x' :: s => (coded? 2 s).map (·, 4)
  | 'u' :: s => (coded? 4 s).map (·, 6)
  | 'U' :: s => (coded? 8 s).map (·, 10)
  | _ => none

/-- Visible characters up to white space or the closing quote, and whether a line break is escaped. -/
def run (isSingle : Bool) : Nat → Cursor → Option (List Char × Bool × Cursor)
  | 0, c => some ([], false, c)
  | fuel + 1, c =>
    match c.rest with
    | [] => some ([], false, c)
    | d :: s =>
      if isBlank d || isBreak d then some ([], false, c)
      else if isSingle && d == '\'' then
        if s.head? = some '\'' then add ['\''] fuel (c.skip 2) else some ([], false, c)
      else if !isSingle && d == '"' then some ([], false, c)
      else if !isSingle && d == '\\' then
        if s.head?.any isBreak then some ([], true, (c.skip 1).takeBreak.2)
        else do
          let (e, size) ← escape? s
          add [e] fuel (c.skip size)
      else add [d] fuel (c.skip 1)
where
  add (found : List Char) (fuel : Nat) (c : Cursor) : Option (List Char × Bool × Cursor) :=
    (run isSingle fuel c).map fun (text, isBroken, c) => (found ++ text, isBroken, c)

/-- The text of a scalar whose opening quote is read, and what follows its closing quote. -/
def read (isSingle : Bool) : Nat → List Char → Cursor → Option (List Char × Cursor)
  | 0, _, _ => none
  | fuel + 1, text, c =>
    if c.isAtDocumentMarks || c.isAtEnd then none
    else do
      let (visible, isBroken, c) ← run isSingle (c.rest.length + 1) c
      let text := text ++ visible
      if c.peek = some (if isSingle then '\'' else '"') then return (text, c.skip 1)
      let (g, c) ← Gap.read (-1) (c.rest.length + 1) { isBroken } c
      read isSingle fuel (text ++ g.text) c

end Quoted

namespace Block

/-- What happens to the line breaks at the end of a block. -/
inductive Chomping where
  | strip
  | clip
  | keep
  deriving DecidableEq

/-- Sign and indentation digit behind the mark of a block, in either order. -/
def header? (c : Cursor) : Option (Chomping × Nat × Cursor) :=
  let sign (c : Cursor) : Chomping × Cursor :=
    match c.peek with
    | some '+' => (.keep, c.skip 1)
    | some '-' => (.strip, c.skip 1)
    | _ => (.clip, c)
  let digit (c : Cursor) : Option (Nat × Cursor) :=
    match c.peek with
    | some d =>
      if d == '0' then none
      else if d.isDigit then some (d.toNat - '0'.toNat, c.skip 1)
      else some (0, c)
    | none => some (0, c)
  let (chomping, c) := sign c
  if chomping = .clip then do
    let (increment, c) ← digit c
    if increment = 0 then return (.clip, 0, c)
    let (chomping, c) := sign c
    return (chomping, increment, c)
  else do
    let (increment, c) ← digit c
    return (chomping, increment, c)

/--
Reads blank lines and the indentation behind them, to `indent` if that is known; gives the breaks
and the deepest column met.
-/
def readBreaks (indent : Nat) : Nat → Nat → List Char → Cursor → Option (Nat × List Char × Cursor)
  | 0, deepest, breaks, c => some (deepest, breaks, c)
  | fuel + 1, deepest, breaks, c =>
    let wanted := if indent = 0 then c.rest.length else indent - c.column
    let spaces := ((c.rest.take wanted).takeWhile (· == ' ')).length
    let c := c.skip spaces
    let deepest := max deepest c.column
    if (indent = 0 ∨ c.column < indent) ∧ c.peek = some '\t' then none
    else if c.peek.any isBreak then
      let (b, c) := c.takeBreak
      readBreaks indent fuel deepest (breaks ++ b) c
    else some (deepest, breaks, c)

/-- The lines of a block at its indentation, with the breaks behind the last of them. -/
def readLines (isLiteral : Bool) (indent : Nat) :
    Nat → List Char → List Char → List Char → Bool → Cursor →
      Option (List Char × List Char × List Char × Cursor)
  | 0, text, leading, trailing, _, c => some (text, leading, trailing, c)
  | fuel + 1, text, leading, trailing, wasIndented, c =>
    if c.column = indent ∧ !c.isAtEnd then do
      let isIndented := c.peek.any isBlank
      let joined :=
        if !isLiteral && leading = ['\n'] && !wasIndented && !isIndented then
          if trailing = [] then [' '] else trailing
        else leading ++ trailing
      let (visible, c) := c.takeWhile fun d => !isBreak d
      let (leading, c) := c.takeBreak
      let (_, trailing, c) ← readBreaks indent (c.rest.length + 1) 0 [] c
      readLines isLiteral indent fuel (text ++ joined ++ visible) leading trailing isIndented c
    else some (text, leading, trailing, c)

/-- The text of a block whose mark is read, inside a structure indented by `outer`. -/
def read (isLiteral : Bool) (outer : Int) (c : Cursor) : Option (List Char × Cursor) := do
  let (chomping, increment, c) ← header? c
  let c ← c.finishLine?
  let given := if increment = 0 then 0 else (max outer 0).toNat + increment
  let (deepest, trailing, c) ← readBreaks given (c.rest.length + 1) 0 [] c
  let indent := if given = 0 then max (max deepest (outer + 1).toNat) 1 else given
  let (text, leading, trailing, c) ←
    readLines isLiteral indent (c.rest.length + 1) [] [] trailing false c
  let text := if chomping = .strip then text else text ++ leading
  return (if chomping = .keep then text ++ trailing else text, c)

end Block

end ExplicitApi.Yaml
