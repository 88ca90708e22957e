import Docket.Text.Numeral
import Docket.Time.Calendar

/-! # Instants

Points of universal time with a resolution of a nanosecond. A leap second is told by a nanosecond
count of at least one second, counted from the second before it. A clock may stand at any instant,
but it is read as the time since the start of 1970, so that one that stands before is not read.
-/

namespace Docket.Time

open Docket.Text

structure Instant where
  /-- Seconds from the start of 1970. -/
  second : Int
  nano : Nat
  nano_lt : nano < 2000000000 := by decide
deriving DecidableEq

namespace Instant

instance : Inhabited Instant := ⟨⟨0, 0, by decide⟩⟩

def le (a b : Instant) : Bool :=
  decide (a.second < b.second ∨ a.second = b.second ∧ a.nano ≤ b.nano)

def date (t : Instant) : Date := .ofDayNumber (t.second / 86400)

def year (t : Instant) : Int := t.date.year

def secondOfDay (t : Instant) : Nat := (t.second % 86400).toNat

/-- Instants that a clock can be read to show. -/
def Readable (t : Instant) : Prop := 0 ≤ t.second ∧ isCovered t.year

instance (t : Instant) : Decidable t.Readable := inferInstanceAs (Decidable (_ ∧ _))

/-- Nanoseconds by which an instant is before 1970. -/
def lag (t : Instant) : Nat := (-(t.second * 1000000000 + t.nano)).toNat

end Instant

/-- Nanoseconds in a unit of `10 ^ places` of them, with as many decimals as it takes. -/
def unitChars (places nanos : Nat) : List Char :=
  let rest := zeroFilled places (nanos % Nat.pow 10 places)
  let decimals := (rest.reverse.dropWhile fun c => c == '0').reverse
  digits (nanos / Nat.pow 10 places) ++ if decimals.isEmpty then [] else '.' :: decimals

/-- A span of time in the largest unit that it lasts for. -/
def spanText (nanos : Nat) : String :=
  if 1000000000 ≤ nanos then String.ofList (unitChars 9 nanos) ++ "s"
  else if 1000000 ≤ nanos then String.ofList (unitChars 6 nanos) ++ "ms"
  else if 1000 ≤ nanos then String.ofList (unitChars 3 nanos) ++ "µs"
  else ofNat nanos ++ "ns"

/-- The time of a clock, or the failure to read it, in the words of whoever reads it. -/
def Instant.read (t : Instant) (words : String) : Except String Instant :=
  if 0 ≤ t.second then .ok t else .error (words ++ ": SystemTimeError(" ++ spanText t.lag ++ ")")

end Docket.Time

namespace Docket

open Time

/-- Who did something, and when. -/
structure Stamp where
  time : Instant
  user : String
deriving DecidableEq

instance : Inhabited Stamp := ⟨⟨default, ""⟩⟩

end Docket
