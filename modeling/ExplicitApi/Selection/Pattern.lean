import ExplicitApi.Error
import ExplicitApi.Glob.Match
import ExplicitApi.Text.Line

/-! Patterns that exclude paths, or with a mark include them again, and files of such patterns. -/
namespace ExplicitApi

structure PathPattern where
  isInclude : Bool
  /-- The pattern as written, without its mark. -/
  source : String
  glob : Glob
  deriving DecidableEq, Repr

namespace PathPattern

def trimSlashes (s : List Char) : List Char :=
  ((s.dropWhile (· == '/')).reverse.dropWhile (· == '/')).reverse

/-- The mark of a pattern that includes, and the pattern without it. -/
def splitMark (raw : String) : Bool × String :=
  match raw.toList with
  | '!' :: s => (true, String.ofList s)
  | _ => (false, raw)

/-- Slashes at both ends are no part of the glob. -/
def compileSource (source : String) : Except Glob.Error Glob :=
  Glob.compile (trimSlashes source.toList)

def parse (raw : String) : Except PatternError PathPattern :=
  let (isInclude, source) := splitMark raw
  match compileSource source with
  | .ok glob => .ok ⟨isInclude, source, glob⟩
  | .error cause => .error ⟨source, cause⟩

def isDirectoryPattern (p : PathPattern) : Bool := p.source.toList.getLast? == some '/'

/-- Whether the pattern has a slash besides those at its end. -/
def hasInnerSlash (p : PathPattern) : Bool :=
  (p.source.toList.reverse.dropWhile (· == '/')).contains '/'

def matchesName (p : PathPattern) (path : Path) : Bool := path.fileName?.any p.glob.isMatch

/--
A pattern that ends in a slash is for the directories above a file. One with a slash is for whole
paths, one without for names.
-/
def isMatch (p : PathPattern) (path : Path) : Bool :=
  if p.isDirectoryPattern then
    (path.properAncestors.filter fun dir => !dir.isEmpty).any fun dir =>
      if p.hasInnerSlash then p.glob.isMatch dir.spelling else p.matchesName dir
  else if p.source.toList.contains '/' then p.glob.isMatch path.spelling
  else p.matchesName path

/-- What the last matching pattern says, else `default`. -/
def verdict (patterns : List PathPattern) (path : Path) (default : Bool) : Bool :=
  patterns.foldl (fun found p => if p.isMatch path then p.isInclude else found) default

/-- What a line of an ignore file says; a blank line, a comment and an invalid pattern say nothing. -/
def ofLine? (line : List Char) : Option PathPattern :=
  match Text.trim line with
  | [] | '#' :: _ => none
  | text => (parse (String.ofList text)).toOption

/-- The patterns of an ignore file. -/
def ofLines (content : String) : List PathPattern :=
  (Text.lines content.toList).filterMap ofLine?

end PathPattern

end ExplicitApi
