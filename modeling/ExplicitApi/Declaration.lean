/-! Declarations, the keyword phrases that open them, and the qualifiers that make them explicit. -/
namespace ExplicitApi

/-- A visibility token that marks a declaration as already qualified. -/
inductive Qualifier where
  | isPublic
  | isPrivate
  | isProtected
  | isInternal
  deriving DecidableEq, Repr

namespace Qualifier

def all : List Qualifier := [isPublic, isPrivate, isProtected, isInternal]

def text : Qualifier → String
  | isPublic => "public"
  | isPrivate => "private"
  | isProtected => "protected"
  | isInternal => "internal"

/-- The qualifier that an unqualified declaration is given. -/
def inserted : Qualifier := isPublic

/-- A regular expression for any qualifier that stands as a whole word. -/
def pattern : String :=
  "\\b(?:" ++ "|".intercalate (all.map text) ++ ")\\b"

end Qualifier

/-- The two kinds of declaration. -/
inductive Declaration where
  | type
  | function
  deriving DecidableEq, Repr

namespace Declaration

/-- Types come before functions. -/
def all : List Declaration := [type, function]

def name : Declaration → String
  | type => "type"
  | function => "function"

def ruleName : Declaration → String
  | type => "type_declarations"
  | function => "function_declarations"

def ofRuleName? (id : String) : Option Declaration := all.find? fun kind => kind.ruleName == id

/-- The phrases that open a declaration; no phrase begins with another. -/
def keywords : Declaration → List String
  | type => ["data class", "enum class", "sealed class", "class", "interface", "object"]
  | function => ["fun"]

def description : Declaration → String
  | type =>
    "Adds 'public' to class, interface and object declarations without a visibility modifier"
  | function => "Adds 'public' to function declarations without a visibility modifier"

/-- The declaration line as a regular expression: indentation, keyword phrase, gap and name. -/
def pattern (kind : Declaration) : String :=
  "(?m)^(\\s*)(" ++ "|".intercalate kind.keywords ++ ")([^\\S\\n]+\\w+.*)$"

end Declaration

/-- One qualifier put in front of a declaration. -/
structure Insertion where
  kind : Declaration
  /-- The line of the keyword, counted from one. -/
  line : UInt32
  keyword : String
  /-- The declared name, as far as it is made of letters, numbers and underscores. -/
  name : String
  deriving DecidableEq, Repr

end ExplicitApi
