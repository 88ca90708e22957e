import Docket.Time.Instant
import Docket.Text.Basic

/-! # The written form of instants

Instants are written in universal time after the pattern `2025-06-15T10:30:00.120Z`, the fraction
with the fewest of 0, 3, 6 or 9 digits that hold it. The reader also takes other offsets, a blank
or a small letter between date and time, short fields, and blanks around them. Both the written
year and that in universal time are among those covered.
-/

namespace Docket.Time

open Docket.Text

/-- Four digits, after a sign outside the years 0 to 9999. -/
def yearChars (year : Int) : List Char :=
  let body := zeroFilled 4 year.natAbs
  if 0 ≤ year ∧ year ≤ 9999 then body else (if year < 0 then '-' else '+') :: body

/-- Fraction of a second, given in nanoseconds. -/
def fractionChars (nano : Nat) : List Char :=
  if nano = 0 then []
  else if nano % 1000000 = 0 then '.' :: zeroFilled 3 (nano / 1000000)
  else if nano % 1000 = 0 then '.' :: zeroFilled 6 (nano / 1000)
  else '.' :: zeroFilled 9 nano

namespace Instant

/-- Date and time of day in universal time, without a mark for that. -/
def universalChars (t : Instant) : List Char :=
  let d := t.date
  let s := t.secondOfDay
  yearChars d.year ++ '-' :: zeroFilled 2 d.month ++ '-' :: zeroFilled 2 d.day
    ++ 'T' :: zeroFilled 2 (s / 3600) ++ ':' :: zeroFilled 2 (s / 60 % 60)
    ++ ':' :: zeroFilled 2 (s % 60 + t.nano / 1000000000) ++ fractionChars (t.nano % 1000000000)

def chars (t : Instant) : List Char := t.universalChars ++ ['Z']

def text (t : Instant) : String := String.ofList t.chars

/-- The text that is stored, which gives the offset in digits. -/
def storedText (t : Instant) : String :=
  String.ofList (t.universalChars ++ ['+', '0', '0', ':', '0', '0'])

end Instant

/-- A number of at least one and at most `limit` digits at the front of a text. -/
def number? (limit : Nat) (cs : List Char) : Option (Nat × List Char) :=
  match leadingDigits limit cs with
  | ([], _) => none
  | (ds, rest) => some (valueOf ds, rest)

/-- A number of one or two digits after blanks. -/
def field? (cs : List Char) : Option (Nat × List Char) := number? 2 (trimStart cs)

/-- What follows a separator, which blanks may precede. -/
def afterSeparator? (c : Char) (cs : List Char) : Option (List Char) :=
  match trimStart cs with
  | d :: rest => if d = c then some rest else none
  | [] => none

/-- A year of up to four digits, or of any number of digits after a sign. -/
def year? (cs : List Char) : Option (Int × List Char) :=
  match trimStart cs with
  | '-' :: rest => (number? rest.length rest).map fun (n, r) => (-(n : Int), r)
  | '+' :: rest => (number? rest.length rest).map fun (n, r) => ((n : Int), r)
  | rest => (number? 4 rest).map fun (n, r) => ((n : Int), r)

def date? (cs : List Char) : Option (Date × List Char) := do
  let (year, cs) ← year? cs
  let (month, cs) ← field? (← afterSeparator? '-' cs)
  let (day, cs) ← field? (← afterSeparator? '-' cs)
  let d : Date := ⟨year, month, day⟩
  if d.Valid ∧ isCovered year then some (d, cs) else none

/-- Nanoseconds of a fraction, if there is one; the digits after the ninth do not count. -/
def fraction? : List Char → Option (Nat × List Char)
  | '.' :: cs =>
    match leadingDigits 9 cs with
    | ([], _) => none
    | (ds, rest) => some (valueOf ds * Nat.pow 10 (9 - ds.length), rest.dropWhile Char.isDigit)
  | cs => some (0, cs)

/-- Seconds of the day and nanoseconds; the second 60 continues the second 59. -/
def timeOfDay? (cs : List Char) : Option ((Nat × Nat) × List Char) := do
  let (hour, cs) ← field? cs
  let (minute, cs) ← field? (← afterSeparator? ':' cs)
  let (second, cs) ← field? (← afterSeparator? ':' cs)
  let (nano, cs) ← fraction? cs
  if hour < 24 ∧ minute < 60 ∧ second < 60 then
    some ((3600 * hour + 60 * minute + second, nano), cs)
  else if hour < 24 ∧ minute < 60 ∧ second = 60 then
    some ((3600 * hour + 60 * minute + 59, nano + 1000000000), cs)
  else none

/-- The characters of a text of exactly two digits at the front, as a number. -/
def pair? (cs : List Char) : Option (Nat × List Char) :=
  match leadingDigits 2 cs with
  | ([a, b], rest) => some (valueOf [a, b], rest)
  | _ => none

/-- Hours and minutes of an offset in seconds, less than a day. -/
def offsetSize? (cs : List Char) : Option (Int × List Char) := do
  let (hours, cs) ← pair? cs
  let (minutes, cs) ← pair? (cs.dropWhile fun c => c == ':' || isBlankChar c)
  if minutes < 60 ∧ hours < 24 then some ((3600 * hours + 60 * minutes : Nat), cs) else none

/-- Offset from universal time in seconds: `Z`, the word `UTC`, or a sign, hours and minutes. -/
def offset? (cs : List Char) : Option (Int × List Char) :=
  match trimStart cs with
  | 'Z' :: rest => some (0, rest)
  | 'z' :: rest => some (0, rest)
  | '+' :: rest => offsetSize? rest
  | '-' :: rest => (offsetSize? rest).map fun (n, r) => (-n, r)
  | '\u2212' :: rest => (offsetSize? rest).map fun (n, r) => (-n, r)
  | a :: b :: c :: rest =>
    if [a, b, c].map Char.toUpper = ['U', 'T', 'C'] then some (0, rest) else none
  | _ => none

namespace Instant

def ofChars? (cs : List Char) : Option Instant := do
  let (date, cs) ← date? cs
  let cs ← match cs with
    | c :: rest => if c = 'T' ∨ c = 't' ∨ c = ' ' then some rest else none
    | [] => none
  let ((second, nano), cs) ← timeOfDay? cs
  let (offset, cs) ← offset? cs
  if h : trimStart cs = [] ∧ nano < 2000000000 then
    let t : Instant := ⟨86400 * date.dayNumber + second - offset, nano, h.2⟩
    if isCovered t.year then some t else none
  else none

def ofText? (s : String) : Option Instant := ofChars? s.toList

end Instant

end Docket.Time
