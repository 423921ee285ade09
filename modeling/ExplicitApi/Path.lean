/-!
Paths as they are written, and the components that decide their equality and order. Repeated
separators, a separator at the end and a dot that is not the first component mean nothing.
-/
namespace ExplicitApi

/-- A path in the spelling it was given. -/
structure Path where
  spelling : String
  deriving DecidableEq, Repr, Inhabited

namespace Path

inductive Component where
  | root
  | current
  | parent
  | name (chars : List Char)
  deriving DecidableEq, Repr

namespace Component

def rank : Component → Nat
  | root => 0
  | current => 1
  | parent => 2
  | name _ => 3

def nameChars : Component → List Char
  | name chars => chars
  | _ => []

instance : Ord Component := ⟨compareLex (compareOn rank) (compareOn nameChars)⟩

instance : Std.TransOrd Component :=
  inferInstanceAs (Std.TransCmp (compareLex (compareOn rank) (compareOn nameChars)))

instance : Std.LawfulEqOrd Component where
  eq_of_compare {a b} h := by
    obtain ⟨ranks, names⟩ := compareLex_eq_eq.1
      (show compareLex (compareOn rank) (compareOn nameChars) a b = .eq from h)
    have ranks : a.rank = b.rank := Std.LawfulEqOrd.eq_of_compare ranks
    have names : a.nameChars = b.nameChars := Std.LawfulEqOrd.eq_of_compare names
    cases a <;> cases b <;> simp_all [rank, nameChars]

end Component

def separator : Char := '/'

/-- The texts between separators. -/
def pieces (s : List Char) : List (List Char) := s.splitOn separator

/-- Whether a piece behind the first one names nothing. -/
def isVoid (piece : List Char) : Bool := piece == [] || piece == ['.']

/-- Whether something in a directory can have this name. -/
def isName (name : List Char) : Bool :=
  !isVoid name && name != ['.', '.'] && !name.contains separator

/-- How a path begins, which no later piece can undo. -/
inductive Lead where
  | root
  | current
  | none
  deriving DecidableEq, Repr

/-- The lead of a path and the pieces behind it. -/
def parts (p : Path) : Lead × List (List Char) :=
  match pieces p.spelling.toList with
  | [] => (.none, [])
  | first :: rest =>
    if first = ['.'] then (.current, rest)
    else if first = [] ∧ rest ≠ [] then (.root, rest)
    else (.none, first :: rest)

def componentOfPiece (piece : List Char) : Component :=
  if piece = ['.', '.'] then .parent else .name piece

def Lead.component? : Lead → Option Component
  | root => some .root
  | current => some .current
  | none => Option.none

def Lead.components (lead : Lead) : List Component := lead.component?.toList

def components (p : Path) : List Component :=
  let (lead, rest) := p.parts
  lead.components ++ (rest.filter fun piece => !isVoid piece).map componentOfPiece

/-- Paths are the same when their components are. -/
def same (p q : Path) : Bool := p.components == q.components

instance : Ord Path := ⟨compareOn components⟩

instance : Std.TransOrd Path := inferInstanceAs (Std.TransCmp (compareOn components))

def isAbsolute (p : Path) : Bool := p.parts.1 == .root

def isEmpty (p : Path) : Bool := p.spelling.isEmpty

def trimPieces (l : List (List Char)) : List (List Char) := (l.reverse.dropWhile isVoid).reverse

def joinPieces (l : List (List Char)) : List Char := [separator].intercalate l

/-- The path with a lead and pieces behind it. -/
def ofParts (lead : Lead) (rest : List (List Char)) : Path :=
  let head := match lead, rest with
    | .root, _ => [separator]
    | .current, [] => ['.']
    | .current, _ => ['.', separator]
    | .none, _ => []
  ⟨String.ofList (head ++ joinPieces rest)⟩

/-- The path without its last component; the root and the empty path have none. -/
def parent? (p : Path) : Option Path :=
  let (lead, rest) := p.parts
  match trimPieces rest, lead with
  | [], .current => some ⟨""⟩
  | [], _ => none
  | kept, lead => some (ofParts lead (trimPieces kept.dropLast))

/-- The last component, when it is a name. -/
def fileName? (p : Path) : Option String :=
  match p.components.getLast? with
  | some (.name chars) => some (String.ofList chars)
  | _ => none

/-- The parents of a path, nearest first. -/
def properAncestors (p : Path) : List Path :=
  go p.components.length p
where
  go : Nat → Path → List Path
    | 0, _ => []
    | fuel + 1, p =>
      match p.parent? with
      | some q => q :: go fuel q
      | none => []

def startsWith (p base : Path) : Bool := base.components.isPrefixOf p.components

/-- Drops the first `n` pieces that name something and the void ones around them. -/
def dropNamed : Nat → List (List Char) → List (List Char)
  | 0, l => l.dropWhile isVoid
  | n + 1, l => dropNamed n (l.dropWhile isVoid).tail

/-- The path relative to one that it starts with. -/
def relativeTo? (p base : Path) : Option Path :=
  if p.startsWith base then
    let (lead, rest) := p.parts
    let leading := lead.components.length
    match base.components.length with
    | 0 => some (ofParts lead (trimPieces rest))
    | n + 1 => some ⟨String.ofList (joinPieces (trimPieces (dropNamed (n + 1 - leading) rest)))⟩
  else none

/-- The path of a name inside the directory `p`; an absolute name stands for itself. -/
def join (p : Path) (name : String) : Path :=
  if name.toList.head? = some separator then ⟨name⟩
  else if p.spelling.isEmpty || p.spelling.toList.getLast? = some separator then
    ⟨p.spelling ++ name⟩
  else ⟨p.spelling ++ "/" ++ name⟩

end Path

end ExplicitApi
