import ExplicitApi.Json.Basic

/-! Reading JSON texts. Each reader gives the value and the text behind it. -/
namespace ExplicitApi.Json

abbrev Reader (α : Type) := List Char → Option (α × List Char)

def isBlank (c : Char) : Bool := c == ' ' || c == '\n' || c == '\t' || c == '\r'

def skipBlanks (s : List Char) : List Char := s.dropWhile isBlank

def hexValue? (c : Char) : Option Nat :=
  if c.isDigit then some (c.toNat - '0'.toNat)
  else if 'a' ≤ c ∧ c ≤ 'f' then some (c.toNat - 'a'.toNat + 10)
  else if 'A' ≤ c ∧ c ≤ 'F' then some (c.toNat - 'A'.toNat + 10)
  else none

/-- Four hexadecimal digits. -/
def hex4 : Reader Nat
  | a :: b :: c :: d :: s => do
    return ((← hexValue? a) * 4096 + (← hexValue? b) * 256 + (← hexValue? c) * 16 + (← hexValue? d), s)
  | _ => none

def charOfCode? (n : Nat) : Option Char := if h : n.isValidChar then some (Char.ofNatAux n h) else none

/-- The character of an escape whose backslash is read; surrogates count only in pairs. -/
def escaped : Reader Char
  | '"' :: s => some ('"', s)
  | '\\' :: s => some ('\\', s)
  | '/' :: s => some ('/', s)
  | 'b' :: s => some ('\x08', s)
  | 'f' :: s => some ('\x0c', s)
  | 'n' :: s => some ('\n', s)
  | 'r' :: s => some ('\r', s)
  | 't' :: s => some ('\t', s)
  | 'u' :: s => do
    let (high, s) ← hex4 s
    if 0xD800 ≤ high ∧ high < 0xDC00 then
      match s with
      | '\\' :: 'u' :: s =>
        let (low, s) ← hex4 s
        if 0xDC00 ≤ low ∧ low < 0xE000 then
          return (← charOfCode? ((high - 0xD800) * 1024 + (low - 0xDC00) + 0x10000), s)
        else none
      | _ => none
    else return (← charOfCode? high, s)
  | _ => none

/-- The characters of a string up to its closing quote, each step reading at least one character. -/
def stringChars : Nat → Reader (List Char)
  | 0, _ => none
  | fuel + 1, s =>
    match s with
    | [] => none
    | '"' :: s => some ([], s)
    | '\\' :: s => do
      let (c, s) ← escaped s
      let (rest, s) ← stringChars fuel s
      return (c :: rest, s)
    | c :: s =>
      if c.toNat < 0x20 then none
      else do
        let (rest, s) ← stringChars fuel s
        return (c :: rest, s)

/-- A string whose opening quote is read. -/
def stringTail : Reader String := fun s =>
  (stringChars (s.length + 1) s).map fun (chars, rest) => (String.ofList chars, rest)

def digits (s : List Char) : List Char × List Char := (s.takeWhile Char.isDigit, s.dropWhile Char.isDigit)

/-- Digits without a leading zero. -/
def wholePart : Reader (List Char) := fun s =>
  match digits s with
  | ([], _) => none
  | ('0' :: _ :: _, _) => none
  | (whole, s) => some (whole, s)

def fractionPart : Reader (Option (List Char))
  | '.' :: s =>
    match digits s with
    | ([], _) => none
    | (fraction, s) => some (some fraction, s)
  | s => some (none, s)

/-- An exponent with its sign, true for a negative one. -/
def exponentPart : Reader (Option (Bool × List Char))
  | 'e' :: s | 'E' :: s =>
    let (below, s) := match s with
      | '-' :: s => (true, s)
      | '+' :: s => (false, s)
      | s => (false, s)
    match digits s with
    | ([], _) => none
    | (power, s) => some (some (below, power), s)
  | s => some (none, s)

def numberValue (s : List Char) : Option (Number × List Char) := do
  let (isNegative, s) := match s with
    | '-' :: s => (true, s)
    | s => (false, s)
  let (whole, s) ← wholePart s
  let (fraction, s) ← fractionPart s
  let (exponent, s) ← exponentPart s
  return (← Number.ofParts? isNegative whole fraction exponent, s)

mutual

def value : Nat → Reader Json
  | 0, _ => none
  | fuel + 1, s =>
    match s with
    | 'n' :: 'u' :: 'l' :: 'l' :: s => some (.null, s)
    | 't' :: 'r' :: 'u' :: 'e' :: s => some (.bool true, s)
    | 'f' :: 'a' :: 'l' :: 's' :: 'e' :: s => some (.bool false, s)
    | '"' :: s => (stringTail s).map fun (text, s) => (.string text, s)
    | '[' :: s =>
      match skipBlanks s with
      | ']' :: s => some (.array [], s)
      | s => (items fuel s).map fun (found, s) => (.array found, s)
    | '\x7b' :: s =>
      match skipBlanks s with
      | '\x7d' :: s => some (.object [], s)
      | s => (members fuel s).map fun (found, s) => (.object found, s)
    | s => (numberValue s).map fun (n, s) => (.number n, s)

/-- One item and those behind it, up to the closing bracket. -/
def items : Nat → Reader (List Json)
  | 0, _ => none
  | fuel + 1, s => do
    let (v, s) ← value fuel s
    match skipBlanks s with
    | ']' :: s => return ([v], s)
    | ',' :: s =>
      let (rest, s) ← items fuel (skipBlanks s)
      return (v :: rest, s)
    | _ => none

/-- One member and those behind it, up to the closing brace. -/
def members : Nat → Reader (List (String × Json))
  | 0, _ => none
  | fuel + 1, s =>
    match s with
    | '"' :: s => do
      let (name, s) ← stringTail s
      match skipBlanks s with
      | ':' :: s =>
        let (v, s) ← value fuel (skipBlanks s)
        match skipBlanks s with
        | '\x7d' :: s => return ([(name, v)], s)
        | ',' :: s =>
          let (rest, s) ← members fuel (skipBlanks s)
          return ((name, v) :: rest, s)
        | _ => none
      | _ => none
    | _ => none

end

/-- The value of a whole text, blanks around it allowed. -/
def parse? (text : String) : Option Json := do
  let s := text.toList
  let (v, s) ← value (s.length + 1) (skipBlanks s)
  if (skipBlanks s).isEmpty then return v else none

/-- The deepest nesting that a reader of arbitrary values accepts. -/
def maxDepth : Nat := 127

end ExplicitApi.Json
