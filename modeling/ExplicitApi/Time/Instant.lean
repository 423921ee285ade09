import ExplicitApi.Time.Calendar

/-! Points in time to the nanosecond, leap seconds included. -/
namespace ExplicitApi.Time

def nanosPerSecond : Nat := 1000000000

/-- The first second of the year -262143. -/
def firstSecond : Int := -8334601228800

/-- The last second of the year 262142. -/
def lastSecond : Int := 8210266876799

/--
A number of seconds from 1970 and nanoseconds behind it. A second count of nanoseconds stands for a
leap second after the last second of a minute, and for the next second after any other.
-/
structure Moment where
  seconds : Int
  nanoseconds : Nat
  inRange : firstSecond ≤ seconds ∧ seconds ≤ lastSecond
  subsecond : nanoseconds < 2 * nanosPerSecond
  deriving DecidableEq, Repr

namespace Moment

def date (t : Moment) : Date := .ofDays (t.seconds / 86400)

def secondOfDay (t : Moment) : Nat := (t.seconds % 86400).toNat

def hour (t : Moment) : Nat := t.secondOfDay / 3600

def minute (t : Moment) : Nat := t.secondOfDay / 60 % 60

/-- The second of the minute, sixty in a leap second. -/
def second (t : Moment) : Nat := t.secondOfDay % 60 + t.nanoseconds / nanosPerSecond

def fraction (t : Moment) : Nat := t.nanoseconds % nanosPerSecond

/-- Whether a second count of nanoseconds, if there is one, follows the last second of a minute. -/
def IsSettled (t : Moment) : Prop := t.nanoseconds < nanosPerSecond ∨ t.seconds % 60 = 59

instance (t : Moment) : Decidable t.IsSettled := inferInstanceAs (Decidable (_ ∨ _))

end Moment

/-- A point in time as clocks show it and texts tell it. -/
structure Instant extends Moment where
  isSettled : toMoment.IsSettled
  deriving DecidableEq, Repr

namespace Instant

def ofParts? (seconds : Int) (nanoseconds : Nat) : Option Instant :=
  if h : (firstSecond ≤ seconds ∧ seconds ≤ lastSecond) ∧ nanoseconds < 2 * nanosPerSecond ∧
      (nanoseconds < nanosPerSecond ∨ seconds % 60 = 59) then
    some ⟨⟨seconds, nanoseconds, h.1, h.2.1⟩, h.2.2⟩
  else none

def epoch : Instant := ⟨⟨0, 0, by decide, by decide⟩, by decide⟩

end Instant

example : Date.toDays ⟨-262143, 1, 1⟩ * 86400 = firstSecond := by decide

example : Date.toDays ⟨262143, 1, 1⟩ * 86400 = lastSecond + 1 := by decide

end ExplicitApi.Time
