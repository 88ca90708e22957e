import Docket.Json.Value
import Docket.Text.Numeral

/-! # Reading JSON text

Each reader takes a value from the front of a text and returns it with what follows it. The readers
of nested values count down from the length of the text.
-/

namespace Docket.Json

open Docket.Text

def isSpace (c : Char) : Bool := c == ' ' || c == '\n' || c == '\t' || c == '\r'

def skipSpace (cs : List Char) : List Char := cs.dropWhile isSpace

def unescaped? (c : Char) : Option Char :=
  if c = '"' ∨ c = '\\' ∨ c = '/' then some c
  else if c = 'b' then some '\x08'
  else if c = 'f' then some '\x0c'
  else if c = 'n' then some '\n'
  else if c = 'r' then some '\r'
  else if c = 't' then some '\t'
  else none

/-- The character of two numbers that only mean one together. -/
def paired? (high low : Nat) : Option Char :=
  if 0xD800 ≤ high ∧ high < 0xDC00 ∧ 0xDC00 ≤ low ∧ low < 0xE000 then
    some (Char.ofNat (0x10000 + (high - 0xD800) * 0x400 + (low - 0xDC00)))
  else none

/-- The character of a number that stands alone. -/
def single? (n : Nat) : Option Char :=
  if 0xD800 ≤ n ∧ n < 0xE000 then none else some (Char.ofNat n)

def stringBody? : List Char → Option (List Char × List Char)
  | [] => none
  | '"' :: rest => some ([], rest)
  | '\\' :: 'u' :: a :: b :: c :: d :: '\\' :: 'u' :: e :: f :: g :: h :: rest =>
    match hexValue? [a, b, c, d], hexValue? [e, f, g, h] with
    | some m, some n =>
      match paired? m n with
      | some x => (stringBody? rest).map fun (s, r) => (x :: s, r)
      | none => do
        let x ← single? m
        let (s, r) ← stringBody? ('\\' :: 'u' :: e :: f :: g :: h :: rest)
        some (x :: s, r)
    | _, _ => none
  | '\\' :: 'u' :: a :: b :: c :: d :: rest => do
    let x ← single? (← hexValue? [a, b, c, d])
    let (s, r) ← stringBody? rest
    some (x :: s, r)
  | '\\' :: c :: rest => do
    let x ← unescaped? c
    let (s, r) ← stringBody? rest
    some (x :: s, r)
  | c :: rest =>
    if c = '\\' ∨ c.toNat < 32 then none
    else (stringBody? rest).map fun (s, r) => (c :: s, r)

/-- Whether the digits of a number start as they may: no zero before another digit. -/
def wellStarted : List Char → Bool
  | [] => false
  | [_] => true
  | c :: _ => c != '0'

def fractionPart? : List Char → Option (List Char × List Char)
  | '.' :: rest =>
    let ds := rest.takeWhile Char.isDigit
    if ds = [] then none else some ('.' :: ds, rest.drop ds.length)
  | rest => some ([], rest)

def exponentPart? : List Char → Option (List Char × List Char)
  | c :: rest =>
    if c = 'e' ∨ c = 'E' then
      let sign := rest.take 1 |>.filter fun c => c == '+' || c == '-'
      let ds := (rest.drop sign.length).takeWhile Char.isDigit
      if ds = [] then none
      else some (c :: (sign ++ ds), rest.drop (sign.length + ds.length))
    else some ([], c :: rest)
  | [] => some ([], [])

/-- A number. One written without a point or an exponent is an integer; minus zero is not. -/
def number? (cs : List Char) : Option (Json × List Char) := do
  let sign := cs.take 1 |>.filter (· == '-')
  let ds := (cs.drop sign.length).takeWhile Char.isDigit
  if wellStarted ds then
    let (fraction, rest) ← fractionPart? (cs.drop (sign.length + ds.length))
    let (power, rest) ← exponentPart? rest
    if fraction = [] ∧ power = [] ∧ ¬(sign ≠ [] ∧ ds = ['0']) then
      let n : Int := valueOf ds
      some (int (if sign = [] then n else -n), rest)
    else some (real (String.ofList (sign ++ ds ++ fraction ++ power)), rest)
  else none

mutual

def value? : Nat → List Char → Option (Json × List Char)
  | 0, _ => none
  | fuel + 1, cs =>
    match skipSpace cs with
    | '"' :: rest => (stringBody? rest).map fun (s, r) => (str (String.ofList s), r)
    | '[' :: rest =>
      match skipSpace rest with
      | ']' :: rest => some (arr [], rest)
      | rest => (items? fuel rest).map fun (vs, r) => (arr vs, r)
    | '{' :: rest =>
      match skipSpace rest with
      | '}' :: rest => some (obj [], rest)
      | rest => (fields? fuel rest).map fun (fs, r) => (obj fs, r)
    | 'n' :: 'u' :: 'l' :: 'l' :: rest => some (null, rest)
    | 't' :: 'r' :: 'u' :: 'e' :: rest => some (bool true, rest)
    | 'f' :: 'a' :: 'l' :: 's' :: 'e' :: rest => some (bool false, rest)
    | rest => number? rest

def items? : Nat → List Char → Option (List Json × List Char)
  | 0, _ => none
  | fuel + 1, cs => do
    let (v, rest) ← value? fuel cs
    match skipSpace rest with
    | ',' :: rest => (items? fuel rest).map fun (vs, r) => (v :: vs, r)
    | ']' :: rest => some ([v], rest)
    | _ => none

def fields? : Nat → List Char → Option (List (String × Json) × List Char)
  | 0, _ => none
  | fuel + 1, cs =>
    match skipSpace cs with
    | '"' :: rest => do
      let (name, rest) ← stringBody? rest
      match skipSpace rest with
      | ':' :: rest => do
        let (v, rest) ← value? fuel rest
        let f := (String.ofList name, v)
        match skipSpace rest with
        | ',' :: rest => (fields? fuel rest).map fun (fs, r) => (f :: fs, r)
        | '}' :: rest => some ([f], rest)
        | _ => none
      | _ => none
    | _ => none

end

def ofChars? (cs : List Char) : Option Json :=
  match value? (cs.length + 1) cs with
  | some (v, rest) => if skipSpace rest = [] then some v else none
  | none => none

def ofText? (s : String) : Option Json := ofChars? s.toList

end Docket.Json
