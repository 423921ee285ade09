import ExplicitApi.Qualify.Basic

/-!
The passes over a text that is only read by byte offsets. Each access is noted, and one that goes
backwards or does not end between two characters makes the pass fail.
-/
namespace ExplicitApi

namespace Qualify

/-- The size of characters in UTF-8. -/
def byteSize : List Char → Nat
  | [] => 0
  | c :: s => c.utf8Size + byteSize s

/-- The characters between two byte offsets. -/
def slice? (text : String) (start stop : Nat) : Option (List Char) := do
  let front ← takeBytes text.toList stop
  let skipped ← takeBytes front start
  return front.drop skipped.length

/-- What a text is read for. -/
inductive Use where
  /-- A part of a declaration line that was found. -/
  | part
  /-- What stands between two declaration lines. -/
  | between
  /-- The window in front of a declaration line, at one offset. -/
  | lookback
  /-- The line feeds since the last insertion. -/
  | count
  deriving DecidableEq, Repr

structure Access where
  use : Use
  start : Nat
  stop : Nat
  deriving DecidableEq, Repr

def Access.read? (text : String) (a : Access) : Option (List Char) :=
  match a.use with
  | .lookback => (windowAt? text a.stop).map String.toList
  | .part | .between | .count => slice? text a.start a.stop

/-- Work that may fail, with the accesses that were made so far. -/
abbrev Reading := StateT (List Access) Option

def read (text : String) (use : Use) (start stop : Nat) : Reading (List Char) := fun made =>
  let a : Access := ⟨use, start, stop⟩
  (a.read? text).map fun found => (found, made ++ [a])

/-- A declaration line without its line feed. -/
def DeclarationLine.shown (d : DeclarationLine) : DeclarationLine :=
  { d with rest := d.rest.takeWhile (· != '\n') }

/-- Where the parts of a declaration line begin and where it ends. -/
structure Place where
  start : Nat
  keyword : Nat
  gap : Nat
  stop : Nat
  deriving DecidableEq, Repr

def DeclarationLine.placeBehind (d : DeclarationLine) (front : List Char) : Place where
  start := byteSize front
  keyword := byteSize (front ++ d.indentation)
  gap := byteSize (front ++ d.indentation ++ d.keyword)
  stop := byteSize (front ++ d.text)

def Segment.place? : Segment → Option Place
  | declaration before _ d => some (d.shown.placeBehind before.reverse)
  | other _ => none

/-- The places of the declaration lines of a kind, in order. -/
def places (kind : Declaration) (text : String) : List Place :=
  (segments kind text.toList).filterMap Segment.place?

/-- How far a pass has come. -/
structure Progress where
  output : List Char := []
  insertions : List Insertion := []
  /-- The end of the text that has been copied. -/
  copied : Nat := 0
  /-- The end of the text whose line feeds have been counted. -/
  counted : Nat := 0
  line : UInt32 := 1
  deriving DecidableEq, Repr

namespace Progress

/-- Copies what stands in front of a declaration line, and the line as it is. -/
def keep (p : Progress) (between : List Char) (d : DeclarationLine) (place : Place) : Progress :=
  { p with output := p.output ++ between ++ d.text, copied := place.stop }

/-- Copies the same with a qualifier, whose line is some line feeds below that of the last one. -/
def insert (p : Progress) (kind : Declaration) (between : List Char) (d : DeclarationLine)
    (passed : List Char) (place : Place) : Progress :=
  let line := p.line + .ofNat (Text.lineFeeds passed)
  { output := p.output ++ between ++ d.indentation ++ inserted ++ d.keyword ++ d.rest
    insertions := p.insertions ++ [⟨kind, line, String.ofList d.keyword, String.ofList d.name⟩]
    copied := place.stop
    counted := place.keyword
    line }

/-- Goes on to the end of the next declaration line. -/
def step (kind : Declaration) (text : String) (p : Progress) (place : Place) :
    Reading Progress := do
  let indentation ← read text .part place.start place.keyword
  let keyword ← read text .part place.keyword place.gap
  let rest ← read text .part place.gap place.stop
  let between ← read text .between p.copied place.start
  let window ← read text .lookback place.start place.start
  if holdsQualifier window then
    return p.keep between ⟨indentation, keyword, rest⟩ place
  else
    let passed ← read text .count p.counted place.keyword
    return p.insert kind between ⟨indentation, keyword, rest⟩ passed place

end Progress

/-- One pass over a text: its new form and the insertions made. -/
def passAt (kind : Declaration) (text : String) : Reading (List Char × List Insertion) := do
  let p ← (places kind text).foldlM (Progress.step kind text) {}
  let rest ← read text .between p.copied text.utf8ByteSize
  return (p.output ++ rest, p.insertions)

/-- The passes of several kinds, each over the result of the one before, unless one fails. -/
def passesAt? (kinds : List Declaration) (text : String) : Option Qualified :=
  kinds.foldlM
    (fun done kind => do
      let ((next, found), _) ← (passAt kind done.text).run []
      return ⟨String.ofList next, done.insertions ++ found⟩)
    ⟨text, []⟩

end Qualify

/-- Qualifies the declarations of a text under the given rules, unless a pass fails. -/
def qualifyAt? (rules : Rules) (text : String) : Option Qualified :=
  Qualify.passesAt? rules.enabled text

end ExplicitApi
