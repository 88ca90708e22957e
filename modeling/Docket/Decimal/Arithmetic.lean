import Docket.Decimal.Basic

/-! # Decimal arithmetic

Sums and products are exact as long as they fit and rounded to fewer places where they do not; a
result that does not fit without places is an overflow. A zero operand decides a result alone.
-/

namespace Docket.Decimal

/-- Product; that of zero is zero without places. -/
def mul (a b : Decimal) : Except Overflow Decimal :=
  if a.isZero || b.isZero then .ok zero
  else
    match fit? (a.coefficient * b.coefficient) (a.places + b.places) with
    | some d => .ok d
    | none => .error .decimalProduct

/-- The coefficient that a decimal has with at least its own number of places. -/
def aligned (d : Decimal) (s : Nat) : Int := d.coefficient * Nat.pow 10 (s - d.places)

/-- Sum with the places of the operand that has more; a zero operand leaves the other one as
it is. -/
def add (a b : Decimal) : Except Overflow Decimal :=
  if a.isZero then .ok b
  else if b.isZero then .ok a
  else
    let s := max a.places b.places
    match fit? (a.aligned s + b.aligned s) s with
    | some d => .ok d
    | none => .error .decimalSum

def dropZeros (count : Nat) (d : Decimal) : Decimal :=
  if count ≤ d.places ∧ d.coefficient % Nat.pow 10 count = 0 then
    { coefficient := d.coefficient / Nat.pow 10 count
      places := d.places - count
      coefficient_lt :=
        Nat.lt_of_le_of_lt (Int.natAbs_ediv_le_natAbs _ _) d.coefficient_lt
      places_le := Nat.le_trans (Nat.sub_le _ _) d.places_le }
  else d

/-- A hundredth with as many places more than the decimal, up to a limit, as its range allows;
without further places it is rounded. -/
def hundredthWithin (d : Decimal) : Nat → Decimal
  | 0 =>
    { coefficient := roundDiv d.coefficient 100
      places := d.places
      coefficient_lt := by
        rw [natAbs_roundDiv]
        exact Nat.lt_of_le_of_lt (roundQuotient_le (by decide)) d.coefficient_lt
      places_le := d.places_le }
  | k + 1 =>
    match ofParts? (roundDiv (d.coefficient * Nat.pow 10 (k + 1)) 100) (d.places + (k + 1)) with
    | some h => h
    | none => hundredthWithin d k

def lowBound : Int := 0x100000000

/-- Decimal without its last eight places, if these are zeros and so are the last 32 bits of the
coefficient. -/
def dropEightZeros (d : Decimal) : Decimal :=
  if d.coefficient % lowBound = 0 then d.dropZeros 8 else d

/-- Decimal without zeros at its end: eight at a time as far as that goes, which is at most three
times, then four, two and one, each time only if there are so many. -/
def trimZeros (d : Decimal) : Decimal :=
  let d := d.dropEightZeros.dropEightZeros.dropEightZeros
  ((d.dropZeros 4).dropZeros 2).dropZeros 1

/-- A hundredth. It keeps the places of the decimal if it is exact with them; else it is computed
with up to nine places more, and zeros at its end are dropped. -/
def hundredth (d : Decimal) : Decimal :=
  if d.isZero then zero
  else if d.coefficient % 100 = 0 then
    { coefficient := d.coefficient / 100
      places := d.places
      coefficient_lt :=
        Nat.lt_of_le_of_lt (Int.natAbs_ediv_le_natAbs _ _) d.coefficient_lt
      places_le := d.places_le }
  else (d.hundredthWithin 9).trimZeros

end Docket.Decimal
