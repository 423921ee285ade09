import ExplicitApi.Qualify.Segment

/-! Putting a qualifier in front of each declaration line of a text that lacks one. -/
namespace ExplicitApi

/-- Which kinds of declaration are qualified. -/
structure Rules where
  types : Bool := true
  functions : Bool := true
  deriving DecidableEq, Repr

namespace Rules

def allows (rules : Rules) : Declaration → Bool
  | .type => rules.types
  | .function => rules.functions

/-- The enabled kinds in the order of their passes. -/
def enabled (rules : Rules) : List Declaration := Declaration.all.filter rules.allows

end Rules

namespace Qualify

/-- The inserted qualifier and the blank behind it. -/
def inserted : List Char := Qualifier.inserted.text.toList ++ [' ']

namespace Segment

/-- The text of a segment after the pass. -/
def qualified : Segment → List Char
  | declaration before _ d =>
    if holdsQualifier (window before) then d.text
    else d.indentation ++ inserted ++ d.keyword ++ d.rest
  | other text => text

/-- The insertion that the pass makes in a segment. -/
def insertion? (kind : Declaration) : Segment → Option Insertion
  | declaration before line d =>
    if holdsQualifier (window before) then none
    else some ⟨kind, .ofNat line, String.ofList d.keyword, String.ofList d.name⟩
  | other _ => none

end Segment

/-- One pass over a text: its new form and the insertions made. -/
def pass (kind : Declaration) (text : List Char) : List Char × List Insertion :=
  let found := segments kind text
  (found.flatMap Segment.qualified, found.filterMap (Segment.insertion? kind))

/-- The passes of several kinds, each over the result of the one before. -/
def passes (kinds : List Declaration) (text : List Char) : List Char × List Insertion :=
  kinds.foldl
    (fun (text, insertions) kind =>
      let (next, found) := pass kind text
      (next, insertions ++ found))
    (text, [])

end Qualify

/-- A qualified text and every insertion made, all of the types before those of the functions. -/
structure Qualified where
  text : String
  insertions : List Insertion
  deriving DecidableEq, Repr

namespace Qualified

def isChanged (r : Qualified) : Bool := !r.insertions.isEmpty

end Qualified

/-- Qualifies the declarations of a text under the given rules. -/
def qualify (rules : Rules) (text : String) : Qualified :=
  let (next, insertions) := Qualify.passes rules.enabled text.toList
  ⟨String.ofList next, insertions⟩

/-- Shows an insertion as a numbered line. -/
def Insertion.display (i : Insertion) : String :=
  let shown := toString i.line.toNat ++ ": " ++ Qualifier.inserted.text ++ " " ++ i.keyword ++ " " ++
    i.name
  String.ofList (Text.trimEnd shown.toList)

end ExplicitApi
