import Docket.Decimal.Basic
import Docket.Text.Numeral

/-! # Decimal text

Decimals are written with all their places and without an exponent. The reader takes a sign, a
point at either end, underscores between digits and an exponent; digits that do not fit are
rounded, a half away from zero.
-/

namespace Docket.Decimal

open Docket.Text

def chars (d : Decimal) : List Char :=
  let ds := zeroFilled (d.places + 1) d.coefficient.natAbs
  let whole := ds.take (ds.length - d.places)
  let part := ds.drop (ds.length - d.places)
  (if d.coefficient < 0 then ['-'] else []) ++ whole
    ++ (if d.places = 0 then [] else '.' :: part)

def text (d : Decimal) : String := String.ofList d.chars

/-- Digits read so far, without a sign. -/
structure Reading where
  coefficient : Nat := 0
  places : Nat := 0
  afterPoint : Bool := false
  anyDigit : Bool := false

namespace Reading

/-- The coefficient and places after a digit that does not fit any more. -/
def rounded? (r : Reading) (digit : Nat) : Option (Nat × Nat) :=
  if digit < 5 then some (r.coefficient, r.places)
  else if r.coefficient + 1 < bound then some (r.coefficient + 1, r.places)
  else if r.places = 0 then none
  else some ((r.coefficient + 5) / 10, r.places - 1)

/-- Coefficient and places of an unsigned text without an exponent. Where no place is left after
the point, the next character decides, and nothing is read behind it. -/
def run? (r : Reading) : List Char → Option (Nat × Nat)
  | [] => if r.anyDigit then some (r.coefficient, r.places) else none
  | c :: cs =>
    if r.places = 28 then
      if c.isDigit then r.rounded? (c.toNat - 48)
      else if c = '_' ∨ c = '.' then some (r.coefficient, r.places)
      else none
    else if c.isDigit then
      let digit := c.toNat - 48
      let next := 10 * r.coefficient + digit
      if next < bound then
        run? { r with
          coefficient := next
          places := if r.afterPoint then r.places + 1 else r.places
          anyDigit := true } cs
      else if r.afterPoint then r.rounded? digit
      else none
    else if c = '.' ∧ !r.afterPoint then run? { r with afterPoint := true } cs
    else if c = '_' ∧ r.anyDigit then run? r cs
    else none

end Reading

/-- The number `c` with `s` places times a power of ten with a negative exponent. At most 28 places
are kept, and a half is rounded away from zero. -/
def lowered? (c s exponent : Nat) : Option (Nat × Nat) :=
  if 28 < exponent then none
  else if s + exponent ≤ 28 then some (c, s + exponent)
  else
    let unit := Nat.pow 10 (s + exponent - 28)
    some ((c + unit / 2) / unit, 28)

/-- The number `c` with `s` places times a power of ten. -/
def raised? (c s exponent : Nat) : Option (Nat × Nat) :=
  if exponent ≤ s then some (c, s - exponent)
  else if c = 0 then some (0, 0)
  else if exponent ≤ s + 28 then some (c * Nat.pow 10 (exponent - s), 0)
  else none

/-- Digits after an optional plus sign, below two to the power 32. -/
def magnitude? (cs : List Char) : Option Nat :=
  let ds := match cs with
    | '+' :: ds => ds
    | ds => ds
  if ds ≠ [] ∧ ds.all Char.isDigit ∧ valueOf ds < 0x100000000 then some (valueOf ds) else none

/-- The number `c` with `s` places times the power of ten whose exponent is written. -/
def scaled? (c s : Nat) : List Char → Option (Nat × Nat)
  | '-' :: cs => do lowered? c s (← magnitude? cs)
  | cs => do raised? c s (← magnitude? cs)

def ofUnsigned? (cs : List Char) : Option (Nat × Nat) :=
  let mantissa := cs.takeWhile fun c => c != 'e' && c != 'E'
  match cs.drop mantissa.length with
  | [] => Reading.run? {} mantissa
  | _ :: power => do
    let (c, s) ← Reading.run? {} mantissa
    scaled? c s power

def ofChars? (cs : List Char) : Option Decimal :=
  match cs with
  | '-' :: rest => do
    let (c, s) ← ofUnsigned? rest
    ofParts? (-(c : Int)) s
  | '+' :: rest => do
    let (c, s) ← ofUnsigned? rest
    ofParts? c s
  | rest => do
    let (c, s) ← ofUnsigned? rest
    ofParts? c s

def ofText? (s : String) : Option Decimal := ofChars? s.toList

end Docket.Decimal
