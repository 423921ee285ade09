/-!
White space, phrases that open a text, and lines, each ended by a line feed except perhaps the last.
-/
namespace ExplicitApi.Text

/-- The twenty-five characters of White_Space. -/
def isBlank (c : Char) : Bool :=
  let n := c.toNat
  (0x9 ≤ n && n ≤ 0xD) || n == 0x20 || n == 0x85 || n == 0xA0 || n == 0x1680 ||
    (0x2000 ≤ n && n ≤ 0x200A) || n == 0x2028 || n == 0x2029 || n == 0x202F || n == 0x205F ||
    n == 0x3000

/-- White space that stays on its line. -/
def isInlineBlank (c : Char) : Bool := isBlank c && c != '\n'

def trimStart (s : List Char) : List Char := s.dropWhile isBlank

def trimEnd (s : List Char) : List Char := (s.reverse.dropWhile isBlank).reverse

def trim (s : List Char) : List Char := trimEnd (trimStart s)

theorem isBlank_newline : isBlank '\n' = true := by decide

theorem isBlank_of_isInlineBlank {c : Char} (h : isInlineBlank c = true) : isBlank c = true := by
  simp_all [isInlineBlank]

/-- What follows a phrase that opens `s`. -/
def afterPhrase? : List Char → List Char → Option (List Char)
  | [], s => some s
  | _ :: _, [] => none
  | c :: phrase, d :: s => if c = d then afterPhrase? phrase s else none

theorem afterPhrase?_eq_some_iff {phrase s rest : List Char} :
    afterPhrase? phrase s = some rest ↔ phrase ++ rest = s := by
  induction phrase generalizing s with
  | nil => simp [afterPhrase?, eq_comm]
  | cons c phrase ih =>
    cases s with
    | nil => simp [afterPhrase?]
    | cons d s =>
      by_cases same : c = d
      · simp [afterPhrase?, same, ih]
      · simp [afterPhrase?, same]

/-- The first line of a text, its line feed included, and what follows it. -/
def splitLine : List Char → List Char × List Char
  | [] => ([], [])
  | c :: s =>
    if c = '\n' then (['\n'], s)
    else
      let (line, rest) := splitLine s
      (c :: line, rest)

theorem splitLine_append (s : List Char) : (splitLine s).1 ++ (splitLine s).2 = s := by
  induction s with
  | nil => rfl
  | cons c s ih =>
    by_cases h : c = '\n'
    · simp [splitLine, h]
    · simpa [splitLine, h] using ih

theorem splitLine_snd_length_le (s : List Char) : (splitLine s).2.length ≤ s.length := by
  induction s with
  | nil => exact Nat.le_refl _
  | cons c s ih =>
    by_cases h : c = '\n'
    · simp [splitLine, h]
    · simp only [splitLine, h, if_false, List.length_cons]
      omega

theorem splitLine_snd_length_lt (c : Char) (s : List Char) :
    (splitLine (c :: s)).2.length < (c :: s).length := by
  by_cases h : c = '\n'
  · simp [splitLine, h]
  · have := splitLine_snd_length_le s
    simp only [splitLine, h, if_false, List.length_cons]
    omega

/-- The number of line feeds. -/
def lineFeeds (s : List Char) : Nat := s.count '\n'

/-- The texts between line feeds; a carriage return before a line feed belongs to the line break. -/
def lines (s : List Char) : List (List Char) :=
  let pieces := s.splitOn '\n'
  let ended := pieces.dropLast.map fun piece =>
    if piece.getLast? = some '\r' then piece.dropLast else piece
  match pieces.getLast? with
  | some [] | none => ended
  | some last => ended ++ [last]

end ExplicitApi.Text
