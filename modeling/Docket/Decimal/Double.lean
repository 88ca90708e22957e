import Docket.Decimal.Basic

/-! # Decimals kept in binary

Amounts are stored as binary numbers with 53 significant bits. Storing takes the nearest one. A
number that is loaded is made a decimal in exact steps as long as they fit, then cut to the places
that a decimal may have and to less than 53 bits, and loses the zeros at its end.
-/

namespace Docket

/-- The number `± significand * 2 ^ exponent`. -/
structure Double where
  negative : Bool
  significand : Nat
  exponent : Int
deriving DecidableEq

namespace Double

def zero : Double := ⟨false, 0, 0⟩

/-- Two to the power 52, the least significand of 53 bits. -/
def leastSignificand : Nat := 0x10000000000000

def power (base : Nat) (e : Int) : Nat × Nat :=
  if 0 ≤ e then (Nat.pow base e.natAbs, 1) else (1, Nat.pow base e.natAbs)

/-- Exponent of the last of 53 significant bits of a positive quotient. -/
def lastExponent (n d : Nat) : Int :=
  let e : Int := (n.log2 : Int) - d.log2
  let (p, q) := power 2 e
  if d * p ≤ n * q then e - 52 else e - 53

/-- Nearest number with 53 significant bits to a quotient of positive numbers. -/
def ofQuotient (negative : Bool) (n d : Nat) : Double :=
  let e := lastExponent n d
  let (p, q) := power 2 e
  let m := Decimal.roundQuotient (n * q) (d * p)
  if m = 2 * leastSignificand then ⟨negative, leastSignificand, e + 1⟩ else ⟨negative, m, e⟩

/-- The stored form of a decimal. -/
def ofDecimal (d : Decimal) : Double :=
  if d.isZero then zero
  else ofQuotient (decide (d.coefficient < 0)) d.coefficient.natAbs (Nat.pow 10 d.places)

/-- A number without sign on its way to a decimal: a coefficient and its places. -/
structure Approximation where
  coefficient : Nat
  places : Nat
deriving DecidableEq

namespace Approximation

/-- The number `c` times five to the power `n` with `k` places. A five is multiplied into an odd
coefficient that has room for it; with any other, a half of the coefficient and one place are
taken away instead. -/
def ofFives (k : Nat) : Nat → Nat → Approximation
  | 0, c => ⟨c, k⟩
  | n + 1, c =>
    if c % 2 = 0 ∨ Decimal.bound ≤ 5 * c then ofFives (k - 1) n (c / 2)
    else ofFives k n (5 * c)

/-- Without the last place, rounded by the digit there. -/
def shorten (a : Approximation) : Approximation :=
  ⟨a.coefficient / 10 + (if a.coefficient % 10 < 5 then 0 else 1), a.places - 1⟩

/-- Without the last `n` places; a number of which nothing is left has none. -/
def dropPlaces : Nat → Approximation → Approximation
  | 0, a => a
  | n + 1, a => if a.coefficient < 10 then ⟨0, 0⟩ else dropPlaces n a.shorten

/-- Shortened, in at most `n` steps, until the coefficient has less than 53 bits. -/
def dropBits : Nat → Approximation → Approximation
  | 0, a => a
  | n + 1, a => if a.coefficient < leastSignificand then a else dropBits n a.shorten

def dropZeros : Nat → Approximation → Approximation
  | 0, a => a
  | n + 1, a => if a.coefficient % 10 = 0 then dropZeros n a.shorten else a

/-- An approximation within the limits for what is loaded. -/
def settled (a : Approximation) : Approximation :=
  let a := a.dropPlaces (a.places - 28)
  let a := a.dropBits a.places
  a.dropZeros a.places

end Approximation

/-- The decimal a stored number is loaded as; none if it is too large. -/
def toDecimal? (x : Double) : Option Decimal :=
  let a : Approximation :=
    if 0 ≤ x.exponent then ⟨x.significand * Nat.pow 2 x.exponent.natAbs, 0⟩
    else (Approximation.ofFives x.exponent.natAbs x.exponent.natAbs x.significand).settled
  Decimal.ofParts? (if x.negative then -(a.coefficient : Int) else a.coefficient) a.places

end Double

end Docket
