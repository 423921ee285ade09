import ExplicitApi.Number.Binary

/-! Numbers of a JSON text: integers of 64 bits as they are, all others in binary. -/
namespace ExplicitApi.Json

inductive Number where
  | natural (n : UInt64)
  /-- The negative of a positive magnitude that fits 64 bits with its sign. -/
  | negative (magnitude : Nat)
  | real (isNegative : Bool) (magnitude : Number.Binary)
  deriving DecidableEq, Repr

namespace Number

/-- What the digits of a number say: a significand of 64 bits and the power of ten it stands at. -/
structure Significand where
  value : Nat := 0
  exponent : Int := 0
  deriving DecidableEq, Repr

/-- Digits that no longer fit are dropped; `isFraction` tells on which side of the point they are. -/
def Significand.push (isFraction : Bool) (s : Significand × Bool) (digit : Nat) :
    Significand × Bool :=
  let (⟨value, exponent⟩, full) := s
  if !full && value * 10 + digit < UInt64.size then
    (⟨value * 10 + digit, if isFraction then exponent - 1 else exponent⟩, false)
  else (⟨value, if isFraction then exponent else exponent + 1⟩, true)

def digitValue (c : Char) : Nat := c.toNat - '0'.toNat

/-- The significand of the digits before and behind the point. -/
def significand (whole fraction : List Char) : Significand :=
  let integer := (whole.map digitValue).foldl (Significand.push false) ({}, false)
  ((fraction.map digitValue).foldl (Significand.push true) (integer.1, false)).1

/-- Scales by a power of ten in steps of one rounding each; none when the result is too large. -/
def scale? (significand : Nat) (exponent : Int) : Option Number.Binary := do
  let start ← Number.Binary.nearest? significand 1
  if exponent ≥ 0 then
    if start.mantissa = 0 then return start
    if exponent > 308 then none
    start.mul? (← Number.Binary.ofDecimal? 1 exponent)
  else
    let size := (-exponent).toNat
    let steps := min 4 ((size - 1) / 308)
    let lowest ← Number.Binary.ofDecimal? 1 308
    let lowered ← (List.range steps).foldlM (fun x _ => x.div? lowest) start
    if lowered.mantissa = 0 then return lowered
    lowered.div? (← Number.Binary.ofDecimal? 1 (size - 308 * steps : Nat))

/-- The number with the given sign, digits and exponent. -/
def ofParts? (isNegative : Bool) (whole : List Char) (fraction : Option (List Char))
    (exponent : Option (Bool × List Char)) : Option Number :=
  match fraction, exponent with
  | none, none =>
    let n := Nat.ofDigitChars 10 whole 0
    if isNegative then
      if 0 < n ∧ n ≤ UInt64.size / 2 then some (.negative n)
      else (asReal whole [] 0)
    else if n < UInt64.size then some (.natural (.ofNat n))
    else asReal whole [] 0
  | fraction, exponent =>
    let power : Int := match exponent with
      | none => 0
      | some (below, digits) =>
        let n := Nat.ofDigitChars 10 digits 0
        if below then -n else n
    asReal whole (fraction.getD []) power
where
  asReal (whole fraction : List Char) (power : Int) : Option Number :=
    let s := significand whole fraction
    (scale? s.value (s.exponent + power)).map (.real isNegative)

def text : Number → String
  | natural n => toString n.toNat
  | negative n => "-" ++ toString n
  | real isNegative x => (if isNegative then "-" else "") ++ x.positional

end Number

end ExplicitApi.Json
