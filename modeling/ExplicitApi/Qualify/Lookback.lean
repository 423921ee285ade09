import ExplicitApi.Declaration
import ExplicitApi.Text.Line
import ExplicitApi.Text.Word

/-! The few characters in front of a declaration, and whether a qualifier stands among them. -/
namespace ExplicitApi.Qualify

/-- How many characters are inspected. -/
def windowLength : Nat := 10

/-- The window in front of a place, whose text before it is given nearest character first. -/
def window (before : List Char) : List Char := (before.take windowLength).reverse

/-- Whether `word` opens `s` and ends there as a whole word. -/
def opensWithWord (s word : List Char) : Bool :=
  match Text.afterPhrase? word s with
  | some rest => !rest.head?.any Text.isWord
  | none => false

/-- Whether one of `words` occurs in `s` as a whole word, `previous` being the character before. -/
def holdsWord (words : List (List Char)) (previous : Option Char) : List Char → Bool
  | [] => false
  | c :: s =>
    (!previous.any Text.isWord && words.any (opensWithWord (c :: s))) || holdsWord words (some c) s

/-- Whether a window taken for itself holds a qualifier as a whole word. -/
def holdsQualifier (window : List Char) : Bool :=
  holdsWord (Qualifier.all.map fun q => q.text.toList) none window

/-- The characters that fill exactly the first `size` bytes of a text in UTF-8. -/
def takeBytes : List Char → Nat → Option (List Char)
  | _, 0 => some []
  | [], _ + 1 => none
  | c :: s, size =>
    if c.utf8Size ≤ size then (takeBytes s (size - c.utf8Size)).map (c :: ·) else none

/-- The window in front of a byte offset, which exists only between two characters of the text. -/
def windowAt? (text : String) (offset : Nat) : Option String :=
  (takeBytes text.toList offset).map fun before => String.ofList (window before.reverse)

end ExplicitApi.Qualify
