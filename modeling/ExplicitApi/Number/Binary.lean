/-! Finite binary numbers of 53 bits, rounded from exact fractions to nearest, ties to even. -/
namespace ExplicitApi.Number

/-- The number `mantissa * 2 ^ exponent`, with at most 53 bits and no exponent below -1074. -/
structure Binary where
  mantissa : Nat
  exponent : Int
  deriving DecidableEq, Repr

/-- The integer nearest to a fraction, the even one at a midpoint. -/
def roundHalfEven (num den : Nat) : Nat :=
  let q := num / den
  let r := num % den
  if 2 * r < den then q else if den < 2 * r then q + 1 else q + q % 2

namespace Binary

def zero : Binary := ⟨0, -1074⟩

/-- The first natural number that takes more than 53 bits. -/
def bound : Nat := 9007199254740992

/-- The fraction `num / den` in units of `2 ^ exponent`. -/
def inUnits (num den : Nat) (exponent : Int) : Nat × Nat :=
  if 0 ≤ exponent then (num, den * Nat.pow 2 exponent.toNat)
  else (num * Nat.pow 2 (-exponent).toNat, den)

/-- The nearest number to `num / den`; none when that is beyond the largest one. -/
def nearest? (num den : Nat) : Option Binary :=
  if num = 0 then some zero
  else
    let low : Int := max (-1074) ((num.log2 : Int) - den.log2 - 53)
    let (n, d) := inUnits num den low
    let exponent := if n / d < bound then low else low + 1
    let (n, d) := inUnits num den exponent
    let m := roundHalfEven n d
    let rounded : Binary := if m = bound then ⟨bound / 2, exponent + 1⟩ else ⟨m, exponent⟩
    if rounded.exponent ≤ 971 then some rounded else none

/-- The number as a fraction of naturals. -/
def fraction (x : Binary) : Nat × Nat :=
  if 0 ≤ x.exponent then (x.mantissa * Nat.pow 2 x.exponent.toNat, 1)
  else (x.mantissa, Nat.pow 2 (-x.exponent).toNat)

def mul? (x y : Binary) : Option Binary :=
  let (a, b) := x.fraction
  let (c, d) := y.fraction
  nearest? (a * c) (b * d)

def div? (x y : Binary) : Option Binary :=
  let (a, b) := x.fraction
  let (c, d) := y.fraction
  nearest? (a * d) (b * c)

/-- The number nearest to `digits * 10 ^ exponent`. -/
def ofDecimal? (digits : Nat) (exponent : Int) : Option Binary :=
  let magnitude : Int := (Nat.toDigits 10 digits).length + exponent
  if digits = 0 ∨ magnitude < -400 then some zero
  else if 400 < magnitude then none
  else if 0 ≤ exponent then nearest? (digits * Nat.pow 10 exponent.toNat) 1
  else nearest? digits (Nat.pow 10 (-exponent).toNat)

/-- Whether `digits * 10 ^ k` reads back as `x`, with its distance in units shared by all `digits`. -/
def readsBack (x : Binary) (k : Int) (digits : Nat) : Option Nat :=
  let quarter := x.exponent - 2
  let scale := if 0 ≤ quarter then Nat.pow 2 quarter.toNat else 1
  let den := if 0 ≤ quarter then 1 else Nat.pow 2 (-quarter).toNat
  let a := if 0 ≤ k then Nat.pow 10 k.toNat * den else den
  let b := if 0 ≤ k then 1 else Nat.pow 10 (-k).toNat
  let below := if x.mantissa = bound / 2 ∧ -1074 < x.exponent then 1 else 2
  let value := 4 * x.mantissa * scale * b
  let low := (4 * x.mantissa - below) * scale * b
  let high := (4 * x.mantissa + 2) * scale * b
  let here := digits * a
  let inside := if x.mantissa % 2 = 0 then low ≤ here ∧ here ≤ high else low < here ∧ here < high
  if inside then some (here - value + (value - here)) else none

/-- The point nearest to `x` among the multiples of `10 ^ k` that read back as `x`. -/
def onGrid? (x : Binary) (k : Int) : Option Nat :=
  let (num, den) := x.fraction
  let q := if 0 ≤ k then num / (den * Nat.pow 10 k.toNat) else num * Nat.pow 10 (-k).toNat / den
  match readsBack x k q, readsBack x k (q + 1) with
  | some d, some u => some (if d < u then q else q + 1)
  | some _, none => some q
  | none, some _ => some (q + 1)
  | none, none => none

/-- The fewest decimal digits that read back as `x`, and the power of ten of the last of them. -/
def shortest (x : Binary) : Nat × Int :=
  if x.mantissa = 0 then (0, 0)
  else
    ((List.range 660).findSome? fun (i : Nat) =>
      let k : Int := 310 - i
      (x.onGrid? k).map fun digits => (digits, k)).getD (0, 0)

/-- Positional notation with the fewest digits that read back, and always a point. -/
def positional (x : Binary) : String :=
  let (digits, k) := x.shortest
  let shown := Nat.toDigits 10 digits
  if 0 ≤ k then String.ofList (shown ++ List.replicate k.toNat '0' ++ ['.', '0'])
  else
    let places := (-k).toNat
    let padded := List.replicate (places + 1 - shown.length) '0' ++ shown
    let point := padded.length - places
    String.ofList (padded.take point ++ ['.'] ++ padded.drop point)

end Binary

end ExplicitApi.Number
