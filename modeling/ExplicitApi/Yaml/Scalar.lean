import ExplicitApi.Mismatch
import ExplicitApi.Number.Binary
import ExplicitApi.Yaml.Node

/-! What scalars stand for, and when a document can be read as a value of any kind. -/
namespace ExplicitApi.Yaml

/-- A number in floating point; zero and not-a-number have the sign of the text. -/
inductive Real where
  | finite (isNegative : Bool) (magnitude : Number.Binary)
  | infinite (isNegative : Bool)
  | notANumber
  deriving DecidableEq, Repr

def Real.text : Real → String
  | finite isNegative x => (if isNegative then "-" else "") ++ x.positional
  | infinite isNegative => (if isNegative then "-" else "") ++ "inf"
  | notANumber => "NaN"

inductive Scalar where
  | null
  | boolean (value : Bool)
  | integer (value : Int)
  | real (value : Real)
  | string (value : String)
  deriving DecidableEq, Repr

namespace Scalar

def isNullText (s : String) : Bool := ["null", "Null", "NULL", "~"].contains s

def booleanOf? (s : String) : Option Bool :=
  if ["true", "True", "TRUE"].contains s then some true
  else if ["false", "False", "FALSE"].contains s then some false
  else none

def digitOf? (base : Nat) (c : Char) : Option Nat := (Quoted.hexValue? c).filter (· < base)

def naturalOf? (base : Nat) (s : List Char) : Option Nat :=
  if s.isEmpty then none
  else (s.mapM (digitOf? base)).map fun digits => digits.foldl (fun n d => base * n + d) 0

/-- Digits in the base that their mark tells, if they have one. -/
def markedNaturalOf? : List Char → Option Nat
  | '0' :: 'x' :: s => naturalOf? 16 s
  | '0' :: 'o' :: s => naturalOf? 8 s
  | '0' :: 'b' :: s => naturalOf? 2 s
  | _ => none

def startsSigned (s : List Char) : Bool := s.head?.any fun c => c == '+' || c == '-'

def dropSign (s : List Char) : List Char := if startsSigned s then s.tail else s

/-- Several digits of which the first is a zero are a text. -/
def isDigitText (s : List Char) : Bool :=
  match dropSign s with
  | '0' :: c :: s => (c :: s).all Char.isDigit
  | _ => false

/-- An integer of at most 128 bits with an optional sign. -/
def integerOf? (s : List Char) : Option Int :=
  let (isNegative, digits) := match s with
    | '-' :: s => (true, s)
    | '+' :: s => (false, s)
    | s => (false, s)
  let found := match markedNaturalOf? digits with
    | some n => some n
    | none => if isDigitText s then none else naturalOf? 10 digits
  match found with
  | some n =>
    if isNegative then if n ≤ Nat.pow 2 127 then some (-n) else none
    else if n < Nat.pow 2 128 then some n else none
  | none => none

/-- Digits with a point or an exponent, none of which needs digits on both sides. -/
def decimalOf? (s : List Char) : Option Number.Binary := do
  let whole := s.takeWhile Char.isDigit
  let s := s.dropWhile Char.isDigit
  let (fraction, s) := match s with
    | '.' :: s => (s.takeWhile Char.isDigit, s.dropWhile Char.isDigit)
    | s => ([], s)
  if whole.isEmpty && fraction.isEmpty then none
  let power ← match s with
    | [] => some (0 : Int)
    | e :: s =>
      if e ≠ 'e' ∧ e ≠ 'E' then none
      else
        let digits := dropSign s
        if digits.isEmpty || !digits.all Char.isDigit then none
        else
          let n : Int := Nat.ofDigitChars 10 digits 0
          some (if s.head? = some '-' then -n else n)
  Number.Binary.ofDecimal? (Nat.ofDigitChars 10 (whole ++ fraction) 0) (power - fraction.length)

def realOf? (s : List Char) : Option Real :=
  let unsigned := match s with
    | '+' :: s => s
    | s => s
  let shown := String.ofList unsigned
  if s.head? = some '+' ∧ startsSigned unsigned then none
  else if [".inf", ".Inf", ".INF"].contains shown then some (.infinite false)
  else if ["-.inf", "-.Inf", "-.INF"].contains (String.ofList s) then some (.infinite true)
  else if [".nan", ".NaN", ".NAN"].contains (String.ofList s) then some .notANumber
  else match unsigned with
    | '-' :: s => (decimalOf? s).map (.finite true)
    | s => (decimalOf? s).map (.finite false)

/-- What a plain scalar without a tag stands for. -/
def ofPlain (text : String) : Scalar :=
  let s := text.toList
  if text.isEmpty || isNullText text then .null
  else match booleanOf? text with
    | some b => .boolean b
    | none =>
      match integerOf? s with
      | some n => .integer n
      | none =>
        match if isDigitText s then none else realOf? s with
        | some x => .real x
        | none => .string text

def tagStart : String := "tag:yaml.org,2002:"

def booleanTag : String := tagStart ++ "bool"
def integerTag : String := tagStart ++ "int"
def realTag : String := tagStart ++ "float"
def nullTag : String := tagStart ++ "null"

/-- What a scalar stands for; a standard tag demands its kind of text, which it may fail to be. -/
def resolve? (tag : Option String) (style : ScalarStyle) (text : String) : Option Scalar :=
  match tag with
  | none => some (if style = .plain then ofPlain text else .string text)
  | some tag =>
    if tag = booleanTag then (booleanOf? text).map .boolean
    else if tag = integerTag then (integerOf? text.toList).map .integer
    else if tag = realTag then (realOf? text.toList).map .real
    else if tag = nullTag then if isNullText text then some .null else none
    else if tag.toList.head? = some '!' ∧ style = .plain then some (ofPlain text)
    else some (.string text)

/-- A description of a scalar that is not of the wanted kind. -/
def found : Scalar → Found
  | null => .unit
  | boolean b => .boolean b
  | integer n => .integer n
  | real x => .real x.text
  | string s => .string s

/-- The scalar as a part of a value: zeros are all the same, and integers have 64 bits at most. -/
def stored? : Scalar → Option Scalar
  | integer n => if n < UInt64.size ∧ -n ≤ Nat.pow 2 63 then some (.integer n) else none
  | real (.finite isNegative x) => some (.real (.finite (isNegative && x.mantissa != 0) x))
  | scalar => some scalar

end Scalar

/-- A document as a value; tags of its own are kept. -/
inductive Value where
  | scalar (tag : Option String) (value : Scalar)
  | sequence (tag : Option String) (items : List Value)
  | mapping (tag : Option String) (entries : List (Value × Value))
  deriving BEq

/-- A tag that is part of a value rather than one of the standard ones. -/
def ownTag (tag : Option String) : Option String := tag.filter fun t => t.toList.head? == some '!'

/-- A reader of values that may still follow a number of aliases. -/
abbrev Value.Reader := StateT Nat Option

namespace Value

def fail : Reader α := fun _ => none

/-- What a node stands for, an alias being followed. -/
def follow (d : Document) (node : Node) : Reader Node := do
  match node with
  | .alias _ =>
    match ← get with
    | 0 => fail
    | left + 1 =>
      set left
      return d.target node
  | node => return node

mutual

/--
The value of a node that is nested at most `depth` deep, each key of a mapping coming once; none if
it is no value.
-/
def ofNode (d : Document) (depth : Nat) (node : Node) : Reader Value := do
  match ← follow d node with
  | .alias _ => fail
  | .scalar tag style text =>
    match (Scalar.resolve? tag style text).bind Scalar.stored? with
    | some value => return .scalar (ownTag tag) value
    | none => fail
  | .sequence tag items =>
    match depth with
    | 0 => fail
    | depth + 1 => return .sequence (ownTag tag) (← ofNodes d depth items)
  | .mapping tag entries =>
    match depth with
    | 0 => fail
    | depth + 1 =>
      let found ← ofEntries d depth entries
      if (found.map Prod.fst).eraseDups.length = found.length then
        return .mapping (ownTag tag) found
      else fail
termination_by (depth, 0)

def ofNodes (d : Document) (depth : Nat) : List Node → Reader (List Value)
  | [] => return []
  | n :: nodes => do
    let v ← ofNode d depth n
    return v :: (← ofNodes d depth nodes)
termination_by nodes => (depth, nodes.length + 1)

def ofEntries (d : Document) (depth : Nat) : List (Node × Node) → Reader (List (Value × Value))
  | [] => return []
  | (k, n) :: entries => do
    let k ← ofNode d depth k
    let v ← ofNode d depth n
    return (k, v) :: (← ofEntries d depth entries)
termination_by entries => (depth, entries.length + 1)

end

end Value

mutual

/-- How many scalars, aliases and ends of collections a node is written with. -/
def Node.events : Node → Nat
  | .scalar .. => 1
  | .alias _ => 1
  | .sequence _ items => 2 + Node.eventsOfItems items
  | .mapping _ entries => 2 + Node.eventsOfEntries entries

def Node.eventsOfItems : List Node → Nat
  | [] => 0
  | n :: nodes => n.events + Node.eventsOfItems nodes

def Node.eventsOfEntries : List (Node × Node) → Nat
  | [] => 0
  | (k, n) :: entries => k.events + n.events + Node.eventsOfEntries entries

end

/-- How deep a value may be nested. -/
def maxDepth : Nat := 128

/-- How many aliases a value may follow for each part that its document is written with. -/
def aliasesPerEvent : Nat := 100

/-- Whether a document can be read as a value of any kind. -/
def Document.isValue (d : Document) : Bool :=
  ((Value.ofNode d maxDepth d.root).run (aliasesPerEvent * d.root.events)).isSome

end ExplicitApi.Yaml
