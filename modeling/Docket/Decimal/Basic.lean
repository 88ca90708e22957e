/-! # Decimals

Integers and decimals are of bounded size, and arithmetic that leaves its range stops the call that
it belongs to. A decimal is a whole coefficient of less than 96 bits and a number of places, at most
28, by which the point stands to the left. Decimals of equal value with different places are
different decimals. Rounding goes to the nearest decimal, and a half to the even neighbour.
-/

namespace Docket

inductive Overflow where
  | integerSum
  | decimalProduct
  | decimalSum
deriving DecidableEq

namespace Overflow

def message : Overflow → String
  | integerSum => "attempt to add with overflow"
  | decimalProduct => "Multiplication overflowed"
  | decimalSum => "Addition overflowed"

end Overflow

def int16Bound : Int := 0x8000

def int32Bound : Int := 0x80000000

def int64Bound : Int := 0x8000000000000000

/-- The next 64-bit integer. -/
def succ? (n : Int) : Except Overflow Int :=
  if n + 1 < int64Bound then .ok (n + 1) else .error .integerSum

/-- Two to the power 96. -/
def Decimal.bound : Nat := 0x1000000000000000000000000

structure Decimal where
  coefficient : Int
  places : Nat
  coefficient_lt : coefficient.natAbs < Decimal.bound
  places_le : places ≤ 28
deriving DecidableEq

namespace Decimal

/-- Nearest whole number to a quotient; a half goes to the even neighbour. -/
def roundQuotient (n d : Nat) : Nat :=
  let q := n / d
  let r := n % d
  if 2 * r < d ∨ 2 * r = d ∧ q % 2 = 0 then q else q + 1

theorem roundQuotient_le {n d : Nat} (hd : 0 < d) : roundQuotient n d ≤ n := by
  unfold roundQuotient
  have hdm := Nat.div_add_mod n d
  have hq : n / d ≤ d * (n / d) := Nat.le_mul_of_pos_left _ hd
  simp only
  split <;> omega

theorem roundQuotient_one (n : Nat) : roundQuotient n 1 = n := by
  simp [roundQuotient, Nat.mod_one]

/-- Nearest whole number to the quotient of an integer by a natural number. -/
def roundDiv (z : Int) (d : Nat) : Int :=
  if z < 0 then -(roundQuotient z.natAbs d : Int) else roundQuotient z.natAbs d

theorem natAbs_roundDiv (z : Int) (d : Nat) : (roundDiv z d).natAbs = roundQuotient z.natAbs d := by
  unfold roundDiv
  split <;> simp

def zero : Decimal := ⟨0, 0, by decide, by decide⟩

instance : Inhabited Decimal := ⟨zero⟩

def ofParts? (c : Int) (s : Nat) : Option Decimal :=
  if h : c.natAbs < bound ∧ s ≤ 28 then some ⟨c, s, h.1, h.2⟩ else none

/-- The number `z` with `s` places, rounded to at most `k` places and to the most of them with
which the coefficient is in range. -/
def fitWithin? (z : Int) (s : Nat) : Nat → Option Decimal
  | 0 => ofParts? (roundDiv z (Nat.pow 10 s)) 0
  | k + 1 =>
    match ofParts? (roundDiv z (Nat.pow 10 (s - (k + 1)))) (k + 1) with
    | some d => some d
    | none => fitWithin? z s k

/-- The number `z` with `s` places as a decimal, with no more rounding than its range asks for. -/
def fit? (z : Int) (s : Nat) : Option Decimal := fitWithin? z s (min s 28)

def isZero (d : Decimal) : Bool := d.coefficient == 0

def isPositive (d : Decimal) : Bool := decide (0 < d.coefficient)

def toRat (d : Decimal) : Rat := (d.coefficient : Rat) / Nat.pow 10 d.places

/-- Decimal rounded to fewer places; one with no more places stays as it is. -/
def round (s : Nat) (d : Decimal) : Decimal :=
  if h : d.places ≤ s then d
  else
    { coefficient := roundDiv d.coefficient (Nat.pow 10 (d.places - s))
      places := s
      coefficient_lt := by
        rw [natAbs_roundDiv]
        exact Nat.lt_of_le_of_lt (roundQuotient_le (Nat.pow_pos (by decide))) d.coefficient_lt
      places_le := by have := d.places_le; omega }

end Decimal

end Docket
