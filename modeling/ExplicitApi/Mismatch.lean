import ExplicitApi.Text.Quoted
import ExplicitApi.Time.Text

/-! How a value read from a text differs from what was wanted. -/
namespace ExplicitApi

/-- What a value turned out to be. -/
inductive Found where
  | null
  /-- An empty or null scalar of a format that calls it a unit. -/
  | unit
  | boolean (value : Bool)
  | integer (value : Int)
  | real (text : String)
  | string (value : String)
  | sequence
  | map
  deriving DecidableEq, Repr

namespace Found

def text : Found → String
  | null => "null"
  | unit => "unit value"
  | boolean b => "boolean `" ++ (if b then "true" else "false") ++ "`"
  | integer n => "integer `" ++ toString n ++ "`"
  | real text => "floating point `" ++ text ++ "`"
  | string s => "string " ++ Text.quoted s
  | sequence => "sequence"
  | map => "map"

end Found

/-- The kinds of value that are wanted somewhere. -/
inductive Wanted where
  | record (name : String)
  | recordOfLength (name : String) (length : Nat)
  | sequence
  | map
  | string
  | boolean
  | unsigned (bits : Nat)
  | fieldName
  | time
  deriving DecidableEq, Repr

namespace Wanted

def text : Wanted → String
  | record name => "struct " ++ name
  | recordOfLength name n =>
    "struct " ++ name ++ " with " ++ toString n ++ (if n = 1 then " element" else " elements")
  | sequence => "a sequence"
  | map => "a map"
  | string => "a string"
  | boolean => "a boolean"
  | unsigned bits => "u" ++ toString bits
  | fieldName => "field identifier"
  | time => "an RFC 3339 formatted date and time string"

end Wanted

inductive Mismatch where
  | missingField (name : String)
  | duplicateField (name : String)
  | wrongType (found : Found) (wanted : Wanted)
  | wrongValue (found : Found) (wanted : Wanted)
  | wrongLength (length : Nat) (wanted : Wanted)
  | unreadableTime (reason : Time.TextError)
  | unknownField (name : String) (known : List String)
  | unknownName (name : String) (known : List String)
  /-- An array with more items than the record has fields. -/
  | tooManyItems
  /-- Seconds and nanoseconds whose sum has no place in 64 bits. -/
  | offsetOverflow
  /-- A time beyond those that a file can carry. -/
  | timeOverflow
  deriving DecidableEq, Repr

namespace Mismatch

def alternatives (names : List String) : String :=
  " or ".intercalate (names.map fun name => "`" ++ name ++ "`")

def message : Mismatch → String
  | missingField name => "missing field `" ++ name ++ "`"
  | duplicateField name => "duplicate field `" ++ name ++ "`"
  | wrongType found wanted => "invalid type: " ++ found.text ++ ", expected " ++ wanted.text
  | wrongValue found wanted => "invalid value: " ++ found.text ++ ", expected " ++ wanted.text
  | wrongLength n wanted => "invalid length " ++ toString n ++ ", expected " ++ wanted.text
  | unreadableTime reason => reason.message
  | unknownField name known =>
    "unknown field `" ++ name ++ "`, expected " ++ alternatives known
  | unknownName name known =>
    "unknown variant `" ++ name ++ "`, expected " ++ alternatives known
  | tooManyItems => "trailing characters"
  | offsetOverflow => "overflow deserializing SystemTime epoch offset"
  | timeOverflow => "overflow deserializing SystemTime"

end Mismatch

end ExplicitApi
