import Docket.Config.Basic
import Docket.Text.Numeral

/-! # Numbers among settings

Which texts are whole numbers and which are other numbers, apart from what the two sources of
settings make of them.
-/

namespace Docket.Config

open Docket.Text

/-- Text without a sign at its front, and whether that is a minus. -/
def unsigned : List Char → Bool × List Char
  | '-' :: rest => (true, rest)
  | '+' :: rest => (false, rest)
  | rest => (false, rest)

/-- Digits of a base below 17 as a number. -/
def valueIn? (base : Nat) (ds : List Char) : Option Nat :=
  if ds = [] then none
  else ds.foldlM (fun acc c =>
    match hexDigit? c with
    | some d => if d < base then some (base * acc + d) else none
    | none => none) 0

/-- Digits after an exponent's letter and sign, or nothing at all. -/
def isExponent : List Char → Bool
  | [] => true
  | c :: rest =>
    let ds := (unsigned rest).2
    (c == 'e' || c == 'E') && ds != [] && ds.all Char.isDigit

/-- A number in decimal digits with a point or an exponent, or with neither. -/
def isNumber (cs : List Char) : Bool :=
  let body := (unsigned cs).2
  let whole := body.takeWhile Char.isDigit
  match body.drop whole.length with
  | '.' :: rest =>
    let part := rest.takeWhile Char.isDigit
    (whole != [] || part != []) && isExponent (rest.drop part.length)
  | rest => whole != [] && isExponent rest

/-- Digits of a number before and after its point, and its exponent. -/
def numberParts (cs : List Char) : List Char × List Char × Int :=
  let body := (unsigned cs).2
  let whole := body.takeWhile Char.isDigit
  let rest := body.drop whole.length
  let part := if rest.head? = some '.' then (rest.drop 1).takeWhile Char.isDigit else []
  let (isNegative, ds) := unsigned ((rest.dropWhile fun c => c == '.' || c.isDigit).drop 1)
  (whole, part, if isNegative then -(valueOf ds : Int) else valueOf ds)

/-- Half a step above the greatest binary number with 53 significant bits and an exponent of
eleven. -/
def rangeEnd : Nat := Nat.pow 2 1024 - Nat.pow 2 970

/-- Whether a number is nearer to a binary number with 53 significant bits than to what comes after
the greatest one. -/
def isInRange (cs : List Char) : Bool :=
  let (whole, part, exponent) := numberParts cs
  let n := valueOf (whole ++ part)
  let shift := exponent - part.length
  let size := (digits n).length + shift
  if n = 0 ∨ size < 300 then true
  else if 320 < size then false
  else if 0 ≤ shift then decide (n * Nat.pow 10 shift.natAbs < rangeEnd)
  else decide (n < rangeEnd * Nat.pow 10 shift.natAbs)

end Docket.Config
