import ExplicitApi.Text.Line
import ExplicitApi.Time.Instant

/-! Points in time as texts with a date, a time of day and an offset from universal time. -/
namespace ExplicitApi.Time

/-- A number in at least `width` digits. -/
def padded (width n : Nat) : List Char :=
  let shown := Nat.toDigits 10 n
  List.replicate (width - shown.length) '0' ++ shown

/-- Four digits for the years from 0 to 9999, else a sign and at least four digits. -/
def yearText (year : Int) : List Char :=
  if 0 ≤ year ∧ year ≤ 9999 then padded 4 year.toNat
  else (if year < 0 then '-' else '+') :: padded 4 year.natAbs

/-- The shortest exact fraction of none, three, six or nine digits. -/
def fractionText (nanoseconds : Nat) : List Char :=
  if nanoseconds = 0 then []
  else if nanoseconds % 1000000 = 0 then '.' :: padded 3 (nanoseconds / 1000000)
  else if nanoseconds % 1000 = 0 then '.' :: padded 6 (nanoseconds / 1000)
  else '.' :: padded 9 nanoseconds

def dateText (d : Date) : List Char :=
  yearText d.year ++ '-' :: padded 2 d.month ++ '-' :: padded 2 d.day

def clockText (t : Moment) : List Char :=
  padded 2 t.hour ++ ':' :: padded 2 t.minute ++ ':' :: padded 2 t.second

namespace Moment

/-- Date, time and fraction, then the given mark of universal time. -/
def text (t : Moment) (utc : String) : String :=
  String.ofList (dateText t.date ++ 'T' :: clockText t ++ fractionText t.fraction ++ utc.toList)

/-- Date and time to the second with a blank between them. -/
def display (t : Moment) : String :=
  String.ofList (dateText t.date ++ ' ' :: clockText t) ++ " UTC"

end Moment

/-- Why a text is not a point in time. -/
inductive TextError where
  | outOfRange
  | impossible
  | invalid
  | tooShort
  | tooLong
  deriving DecidableEq, Repr

namespace TextError

def message : TextError → String
  | outOfRange => "input is out of range"
  | impossible => "no possible date and time matching input"
  | invalid => "input contains invalid characters"
  | tooShort => "premature end of input"
  | tooLong => "trailing input"

end TextError

abbrev Reader (α : Type) := List Char → Except TextError (α × List Char)

/-- One to `width` digits, or any number of them. -/
def digits (width : Option Nat) : Reader Nat
  | [] => .error .tooShort
  | c :: s =>
    if !c.isDigit then .error .invalid
    else
      let run := (c :: s).takeWhile Char.isDigit
      let run := (width.map run.take).getD run
      let n := Nat.ofDigitChars 10 run 0
      if n < UInt64.size / 2 then .ok (n, (c :: s).drop run.length) else .error .outOfRange

/-- Digits behind blanks, whose number must lie in a range. -/
def field (width : Option Nat) (first last : Nat) : Reader Nat := fun s => do
  let (n, s) ← digits width (Text.trimStart s)
  if first ≤ n ∧ n ≤ last then return (n, s) else throw .outOfRange

/-- Four digits at most, or any number of them behind a sign. -/
def yearField : Reader Int := fun s => do
  let (year, s) ← match Text.trimStart s with
    | '-' :: s => do
      let (n, s) ← digits none s
      pure (-(n : Int), s)
    | '+' :: s => do
      let (n, s) ← digits none s
      pure ((n : Int), s)
    | s => do
      let (n, s) ← digits (some 4) s
      pure ((n : Int), s)
  if -2147483648 ≤ year ∧ year < 2147483648 then return (year, s) else throw .outOfRange

/-- A mark that may have blanks in front of it. -/
def mark (c : Char) : Reader Unit := fun s =>
  match Text.trimStart s with
  | [] => .error .tooShort
  | d :: s => if c = d then .ok ((), s) else .error .invalid

/-- Nanoseconds behind a point; digits beyond the ninth are skipped. -/
def fractionField : Reader Nat
  | '.' :: s => do
    let (n, rest) ← digits (some 9) s
    let read := s.length - rest.length
    return (n * Nat.pow 10 (9 - read), rest.dropWhile Char.isDigit)
  | s => .ok (0, s)

/-- Two digits whose number is at most `last`. -/
def twoDigits (last : Nat) : Reader Nat
  | a :: b :: s =>
    if a.isDigit && b.isDigit then
      let n := Nat.ofDigitChars 10 [a, b] 0
      if n ≤ last then .ok (n, s) else .error .outOfRange
    else .error .invalid
  | _ => .error .tooShort

/-- The offset from universal time in seconds. -/
def offsetField : Reader Int := fun s =>
  match s with
  | 'Z' :: s | 'z' :: s => .ok (0, s)
  | '+' :: s => amount 1 s
  | '-' :: s | '\u2212' :: s => amount (-1) s
  | [] => .error .tooShort
  | _ => .error .invalid
where
  amount (sign : Int) : Reader Int := fun s => do
    let (hours, s) ← twoDigits 99 s
    let (minutes, s) ← twoDigits 59 (s.dropWhile fun c => c == ':' || Text.isBlank c)
    return (sign * (hours * 3600 + minutes * 60 : Nat), s)

/-- Universal time by name, or an offset. -/
def zoneField : Reader Int := fun s =>
  match Text.trimStart s with
  | u :: t :: c :: s =>
    if u.toLower = 'u' ∧ t.toLower = 't' ∧ c.toLower = 'c' then .ok (0, s)
    else offsetField (u :: t :: c :: s)
  | s => offsetField s

/-- Reads a point in time and converts it to universal time. -/
def Instant.parse (text : String) : Except TextError Instant := do
  let (year, s) ← yearField text.toList
  let ((), s) ← mark '-' s
  let (month, s) ← field (some 2) 1 12 s
  let ((), s) ← mark '-' s
  let (day, s) ← field (some 2) 1 31 s
  let s ← match s with
    | 'T' :: s | 't' :: s | ' ' :: s => pure s
    | [] => throw .tooShort
    | _ => throw .invalid
  let (hour, s) ← field (some 2) 0 23 s
  let ((), s) ← mark ':' s
  let (minute, s) ← field (some 2) 0 59 s
  let ((), s) ← mark ':' s
  let (second, s) ← field (some 2) 0 60 s
  let (fraction, s) ← fractionField s
  let (offset, s) ← zoneField s
  if Text.trimStart s ≠ [] then throw .tooLong
  let date : Date := ⟨year, month, day⟩
  if ¬ date.IsValid then throw .outOfRange
  let seconds : Int := date.toDays * 86400 + (hour * 3600 + minute * 60 + min second 59 : Nat)
  let nanoseconds := fraction + if second = 60 then nanosPerSecond else 0
  if seconds < firstSecond ∨ lastSecond < seconds then throw .outOfRange
  if offset ≤ -86400 ∨ 86400 ≤ offset then throw .outOfRange
  match Instant.ofParts? (seconds - offset) nanoseconds with
  | some t => return t
  | none => throw .impossible

end ExplicitApi.Time
