import ExplicitApi.Json.Number

/-! JSON values, whose objects keep their members as written. -/
namespace ExplicitApi

inductive Json where
  | null
  | bool (value : Bool)
  | number (value : Json.Number)
  | string (value : String)
  | array (items : List Json)
  | object (members : List (String × Json))
  deriving Repr

namespace Json

def ofUInt64 (n : UInt64) : Json := .number (.natural n)

def ofUInt32 (n : UInt32) : Json := .number (.natural n.toUInt64)

def ofOption : Option String → Json
  | none => .null
  | some s => .string s

/-- The last member of a name, as a reader that keeps one value per name finds it. -/
def member? (name : String) : Json → Option Json
  | .object members => (members.reverse.find? fun m => m.1 == name).map Prod.snd
  | _ => none

mutual

/-- How many arrays and objects lie within one another. -/
def depth : Json → Nat
  | .array items => depthOfItems items + 1
  | .object members => depthOfMembers members + 1
  | _ => 0

def depthOfItems : List Json → Nat
  | [] => 0
  | v :: items => max (depth v) (depthOfItems items)

def depthOfMembers : List (String × Json) → Nat
  | [] => 0
  | (_, v) :: members => max (depth v) (depthOfMembers members)

end

end Json

end ExplicitApi
