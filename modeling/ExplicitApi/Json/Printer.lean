import ExplicitApi.Json.Basic

/-! The texts of JSON values: on one line, or one member a line with two blanks per level. -/
namespace ExplicitApi.Json

/-- Quotes, backslashes and controls are escaped, all else is written as it is. -/
def escape (c : Char) : List Char :=
  if c = '"' then ['\\', '"']
  else if c = '\\' then ['\\', '\\']
  else if c = '\x08' then ['\\', 'b']
  else if c = '\x0c' then ['\\', 'f']
  else if c = '\n' then ['\\', 'n']
  else if c = '\r' then ['\\', 'r']
  else if c = '\t' then ['\\', 't']
  else if c.toNat < 0x20 then
    ['\\', 'u', '0', '0', if c.toNat < 0x10 then '0' else '1', Nat.digitChar (c.toNat % 16)]
  else [c]

def stringText (s : String) : List Char := '"' :: (s.toList.flatMap escape ++ ['"'])

def boolText (b : Bool) : List Char := (if b then "true" else "false").toList

/-- A line break and the indentation of a level. -/
def newLine (level : Nat) : List Char := '\n' :: List.replicate (2 * level) ' '

mutual

/-- The indented text of a value that stands at a level; an empty array or object stays closed. -/
def prettyAt (level : Nat) : Json → List Char
  | .null => "null".toList
  | .bool b => boolText b
  | .number n => n.text.toList
  | .string s => stringText s
  | .array [] => "[]".toList
  | .array (v :: items) =>
    '[' :: newLine (level + 1) ++ prettyAt (level + 1) v ++ prettyItems level items
  | .object [] => ['\x7b', '\x7d']
  | .object ((name, v) :: members) =>
    '\x7b' :: newLine (level + 1) ++ stringText name ++ [':', ' '] ++ prettyAt (level + 1) v ++
      prettyMembers level members

/-- The items behind the first and the closing bracket. -/
def prettyItems (level : Nat) : List Json → List Char
  | [] => newLine level ++ [']']
  | v :: items =>
    ',' :: newLine (level + 1) ++ prettyAt (level + 1) v ++ prettyItems level items

def prettyMembers (level : Nat) : List (String × Json) → List Char
  | [] => newLine level ++ ['\x7d']
  | (name, v) :: members =>
    ',' :: newLine (level + 1) ++ stringText name ++ [':', ' '] ++ prettyAt (level + 1) v ++
      prettyMembers level members

end

def pretty (v : Json) : String := String.ofList (prettyAt 0 v)

mutual

/-- The text of a value without blanks, in front of `rest`. -/
def compactBefore (rest : List Char) : Json → List Char
  | .null => "null".toList ++ rest
  | .bool b => boolText b ++ rest
  | .number n => n.text.toList ++ rest
  | .string s => stringText s ++ rest
  | .array items => '[' :: compactItems true (']' :: rest) items
  | .object members => '\x7b' :: compactMembers true ('\x7d' :: rest) members

def compactItems (isFirst : Bool) (rest : List Char) : List Json → List Char
  | [] => rest
  | v :: items =>
    let tail := compactBefore (compactItems false rest items) v
    if isFirst then tail else ',' :: tail

def compactMembers (isFirst : Bool) (rest : List Char) : List (String × Json) → List Char
  | [] => rest
  | (name, v) :: members =>
    let tail := stringText name ++ ':' :: compactBefore (compactMembers false rest members) v
    if isFirst then tail else ',' :: tail

end

def compact (v : Json) : String := String.ofList (compactBefore [] v)

end ExplicitApi.Json
