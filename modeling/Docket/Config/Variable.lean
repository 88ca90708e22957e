import Docket.Config.Scalar

/-! # Settings from variables

A variable of the environment names a setting after a common beginning, in any case. Its value is a
boolean, a number, a quoted text, a list or a mapping if it is one from end to end, and else a text
as it stands.
-/

namespace Docket.Config

open Docket.Text

def variableStart : String := "DOCUMENT_SERVICE_"

def isAsciiBlank (c : Char) : Bool := c == ' ' || c == '\t' || c == '\n' || c == '\r' || c == '\x0c'

def skipBlank (cs : List Char) : List Char := cs.dropWhile isAsciiBlank

def isSeparator (c : Char) : Bool := c == ',' || c == '{' || c == '}' || c == '[' || c == ']'

def isKeyChar (c : Char) : Bool := c.isAlphanum || c == '_' || c == '-'

def character? (n : Nat) : Option Char :=
  if n < 0xD800 ∨ 0xE000 ≤ n ∧ n < 0x110000 then some (Char.ofNat n) else none

/-- Characters that stand for themselves between quotes: all but control characters, of which the
tab may stand there. -/
def isQuotable (c : Char) : Bool := c == '\t' || (' ' ≤ c && c != '\x7f')

/-- Text between quotes, and what follows the closing one. -/
def quoted? : Nat → List Char → Option (List Char × List Char)
  | 0, _ => none
  | _, [] => none
  | _, '"' :: rest => some ([], rest)
  | fuel + 1, '\\' :: c :: rest => do
    let (x, rest) ←
      if c = 'b' then some ('\x08', rest)
      else if c = 't' then some ('\t', rest)
      else if c = 'n' then some ('\n', rest)
      else if c = 'f' then some ('\x0c', rest)
      else if c = 'r' then some ('\r', rest)
      else if c = '"' ∨ c = '\\' then some (c, rest)
      else if c = 'u' then
        if rest.length < 4 then none
        else (do character? (← hexValue? (rest.take 4))).map fun x => (x, rest.drop 4)
      else if c = 'U' then
        if rest.length < 8 then none
        else (do character? (← hexValue? (rest.take 8))).map fun x => (x, rest.drop 8)
      else none
    let (xs, rest) ← quoted? fuel rest
    some (x :: xs, rest)
  | fuel + 1, c :: rest =>
    if isQuotable c then (quoted? fuel rest).map fun (xs, r) => (c :: xs, r) else none

/-- The setting that a text without quotes or brackets is. -/
def bareSetting (cs : List Char) : Setting :=
  let (negative, body) := unsigned cs
  if cs.contains '.' && isNumber cs then .real
  else
    match valueIn? 10 body with
    | some n =>
      if negative ∧ (n : Int) ≤ int64Bound then .int (-(n : Int))
      else if ¬negative ∧ (n : Int) < 2 * int64Bound then .int n
      else .text (String.ofList cs)
    | none => .text (String.ofList cs)

mutual

/-- A setting at the front of a text, and what follows it. -/
def setting? : Nat → List Char → Option (Setting × List Char)
  | 0, _ => none
  | fuel + 1, cs =>
    let found : Option (Setting × List Char) :=
      match skipBlank cs with
      | 't' :: 'r' :: 'u' :: 'e' :: rest => some (.bool true, rest)
      | 'f' :: 'a' :: 'l' :: 's' :: 'e' :: rest => some (.bool false, rest)
      | '[' :: rest => (items? fuel rest).map fun r => (.compound, r)
      | '{' :: rest => (entries? fuel rest).map fun r => (.compound, r)
      | '"' :: rest => do
        let (s, rest) ← quoted? (rest.length + 1) rest
        some (.text (String.ofList s), rest)
      | '\'' :: rest =>
        match rest with
        | c :: '\'' :: rest => some (.text (String.ofList [c]), rest)
        | _ => none
      | rest =>
        let bare := rest.takeWhile fun c => !isSeparator c
        some (bareSetting (trim bare), rest.drop bare.length)
    found.map fun (value, rest) => (value, skipBlank rest)

/-- What follows a list whose bracket was opened. -/
def items? : Nat → List Char → Option (List Char)
  | 0, _ => none
  | _, ']' :: rest => some rest
  | fuel + 1, cs =>
    match setting? fuel cs with
    | some (_, ',' :: rest) => items? fuel rest
    | some (_, ']' :: rest) => some rest
    | _ => none

/-- What follows a mapping whose brace was opened. -/
def entries? : Nat → List Char → Option (List Char)
  | 0, _ => none
  | _, '}' :: rest => some rest
  | fuel + 1, cs =>
    let afterKey : Option (List Char) :=
      match skipBlank cs with
      | '"' :: rest => (quoted? (rest.length + 1) rest).map Prod.snd
      | rest =>
        let key := rest.takeWhile isKeyChar
        if key = [] then none else some (rest.drop key.length)
    match afterKey.map skipBlank with
    | some ('=' :: rest) =>
      match setting? fuel rest with
      | some (_, ',' :: rest) => entries? fuel rest
      | some (_, '}' :: rest) => some rest
      | _ => none
    | _ => none

end

/-- The setting that the value of a variable is. -/
def ofValue (value : String) : Setting :=
  match setting? (value.length + 1) value.toList with
  | some (found, []) => found
  | _ => .text value

/-- The setting of a variable, if the variable has one. Points cut the name into parts, none of
which may be empty; a name of several parts makes the setting a mapping. -/
def ofVariable? (name value : String) : Option (String × Setting) :=
  let start := variableStart.toList
  let cs := trim name.toList
  if (cs.take start.length).map Char.toLower = start.map Char.toLower then
    match (trim ((cs.drop start.length).map Char.toLower)).splitOn '.' with
    | [] => none
    | first :: more =>
      if first = [] ∨ more.contains [] then none
      else some (String.ofList first, if more = [] then ofValue value else .compound)
  else none

def ofEnvironment (environment : List (String × String)) : Settings :=
  (environment.mergeSort fun a b => decide (a.1 ≤ b.1)).filterMap fun v => ofVariable? v.1 v.2

end Docket.Config
