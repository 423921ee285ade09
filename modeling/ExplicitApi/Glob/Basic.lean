/-! Glob patterns: their tokens, how a pattern is read, and why one is refused. -/
namespace ExplicitApi

namespace Glob

/-- A member of a bracketed set, both ends of a range included. -/
inductive Specifier where
  | one (c : Char)
  | range (first last : Char)
  deriving DecidableEq, Repr

inductive Token where
  | literal (c : Char)
  | anyChar
  | anySequence
  /-- Whole components of a path, also none. -/
  | anyComponents
  | within (set : List Specifier)
  | except (set : List Specifier)
  deriving DecidableEq, Repr

/-- Why a pattern is refused, with the place in characters. -/
inductive Error where
  | tooManyStars (position : Nat)
  | partialComponent (position : Nat)
  | invalidRange (position : Nat)
  deriving DecidableEq, Repr

namespace Error

def position : Error → Nat
  | tooManyStars n | partialComponent n | invalidRange n => n

def reason : Error → String
  | tooManyStars _ => "wildcards are either regular `*` or recursive `**`"
  | partialComponent _ => "recursive wildcards must form a single path component"
  | invalidRange _ => "invalid range pattern"

def message (e : Error) : String :=
  "Pattern syntax error near position " ++ toString e.position ++ ": " ++ e.reason

end Error

/-- The members of a set, a dash between two characters making a range. -/
def specifiers : List Char → List Specifier
  | a :: '-' :: b :: s => .range a b :: specifiers s
  | a :: s => .one a :: specifiers s
  | [] => []

/-- The characters before the first closing bracket, and what follows it. -/
def splitBracket (s : List Char) : Option (List Char × List Char) :=
  match s.dropWhile (· != ']') with
  | [] => none
  | _ :: rest => some (s.takeWhile (· != ']'), rest)

/-- A set whose opening bracket is read; a closing bracket in first place is a member. -/
def splitSet : List Char → Option (Token × List Char)
  | '!' :: c :: s => (splitBracket s).map fun (set, rest) => (.except (specifiers (c :: set)), rest)
  | c :: s =>
    if c = '!' then none
    else (splitBracket s).map fun (set, rest) => (.within (specifiers (c :: set)), rest)
  | [] => none

theorem splitBracket_length_lt {s set rest : List Char} (h : splitBracket s = some (set, rest)) :
    rest.length < s.length := by
  have whole := congrArg List.length (List.takeWhile_append_dropWhile (p := (· != ']')) (l := s))
  unfold splitBracket at h
  split at h
  · cases h
  · next dropped =>
    cases h
    rw [List.length_append, dropped, List.length_cons] at whole
    omega

theorem splitSet_length_lt {s rest : List Char} {t : Token} (h : splitSet s = some (t, rest)) :
    rest.length < s.length := by
  unfold splitSet at h
  split at h
  · obtain ⟨⟨_, _⟩, found, eq⟩ := Option.map_eq_some_iff.1 h
    cases eq
    have := splitBracket_length_lt found
    simp only [List.length_cons]
    omega
  · split at h
    · cases h
    · obtain ⟨⟨_, _⟩, found, eq⟩ := Option.map_eq_some_iff.1 h
      cases eq
      have := splitBracket_length_lt found
      simp only [List.length_cons]
      omega
  · cases h

/-- A second token for whole components says nothing new, unless it is the second of all. -/
def pushAnyComponents (done : List Token) : List Token :=
  match done with
  | .anyComponents :: _ :: _ => done
  | _ => .anyComponents :: done

/--
Reads the tokens of `s`, which stands at a position behind the character `previous`; `done` holds
the tokens read so far, last first.
-/
def tokensFrom (position : Nat) (previous : Option Char) (done : List Token) :
    List Char → Except Error (List Token)
  | [] => .ok done.reverse
  | '?' :: s => tokensFrom (position + 1) (some '?') (.anyChar :: done) s
  | '*' :: s =>
    match s with
    | '*' :: '*' :: _ => .error (.tooManyStars (position + 2))
    | ['*'] =>
      if previous.all (· == '/') then .ok (pushAnyComponents done).reverse
      else .error (.partialComponent (position - 1))
    | '*' :: c :: s =>
      if !previous.all (· == '/') then .error (.partialComponent (position - 1))
      else if c = '/' then tokensFrom (position + 3) (some '/') (pushAnyComponents done) s
      else .error (.partialComponent (position + 2))
    | s => tokensFrom (position + 1) (some '*') (.anySequence :: done) s
  | '[' :: s =>
    match h : splitSet s with
    | some (t, rest) =>
      tokensFrom (position + 1 + (s.length - rest.length)) (some ']') (t :: done) rest
    | none => .error (.invalidRange position)
  | c :: s => tokensFrom (position + 1) (some c) (.literal c :: done) s
  termination_by s => s.length
  decreasing_by
    · simp
    · simp only [List.length_cons]
      omega
    · simp
    · simpa using Nat.lt_succ_of_lt (splitSet_length_lt h)
    · simp

end Glob

/-- A compiled pattern. -/
structure Glob where
  tokens : List Glob.Token
  deriving DecidableEq, Repr

namespace Glob

def compile (pattern : List Char) : Except Error Glob := do
  return ⟨← tokensFrom 0 none [] pattern⟩

end Glob

end ExplicitApi
