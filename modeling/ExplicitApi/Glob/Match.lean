import ExplicitApi.Glob.Basic

/-! When a pattern matches a text. -/
namespace ExplicitApi.Glob

def Specifier.contains (c : Char) : Specifier → Bool
  | one d => c == d
  | range first last => first ≤ c && c ≤ last

/-- A text and what is left of it after each of its characters. -/
def suffixes : List Char → List (List Char)
  | [] => [[]]
  | c :: s => (c :: s) :: suffixes s

/-- What is left of a text after each of its slashes. -/
def afterSlashes : List Char → List (List Char)
  | [] => []
  | c :: s => if c = '/' then s :: afterSlashes s else afterSlashes s

/-- Whether a token that stands for one character accepts `c`. -/
def Token.accepts (c : Char) : Token → Bool
  | literal d => c == d
  | anyChar => true
  | within set => set.any (Specifier.contains c)
  | except set => !set.any (Specifier.contains c)
  | anySequence | anyComponents => false

inductive Trial where
  | matched
  | mismatched
  /-- The text came to its end before the tokens did, which no later start can mend. -/
  | exhausted
  deriving DecidableEq, Repr

/-- The first trial that does not leave a later start in question. -/
def firstDecision (trial : List Char → Trial) : List (List Char) → Trial
  | [] => .mismatched
  | s :: starts =>
    match trial s with
    | .mismatched => firstDecision trial starts
    | decision => decision

/-- Tries to match tokens with the whole of a text. -/
def tryTokens : List Token → List Char → Trial
  | [], [] => .matched
  | [], _ :: _ => .mismatched
  | .anySequence :: ts, s => firstDecision (tryTokens ts) (suffixes s)
  | .anyComponents :: ts, s => firstDecision (tryTokens ts) (s :: afterSlashes s ++ [[]])
  | _ :: _, [] => .exhausted
  | t :: ts, c :: s => if t.accepts c then tryTokens ts s else .mismatched

def isMatch (glob : Glob) (text : String) : Bool := tryTokens glob.tokens text.toList == .matched

end ExplicitApi.Glob
