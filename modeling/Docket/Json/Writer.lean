import Docket.Json.Value
import Docket.Text.Numeral

/-! # JSON text

The compact written form: no blanks, fields in their order, and an escape only where a character
needs one.
-/

namespace Docket.Json

open Docket.Text

/-- A character inside quotes. Control characters without an escape of their own are written with
their number. -/
def escaped (c : Char) : List Char :=
  if c = '"' then ['\\', '"']
  else if c = '\\' then ['\\', '\\']
  else if c = '\x08' then ['\\', 'b']
  else if c = '\x0c' then ['\\', 'f']
  else if c = '\n' then ['\\', 'n']
  else if c = '\r' then ['\\', 'r']
  else if c = '\t' then ['\\', 't']
  else if c.toNat < 32 then '\\' :: 'u' :: hexDigits 4 c.toNat
  else [c]

def quoted (s : String) : List Char := '"' :: (s.toList.flatMap escaped ++ ['"'])

mutual

def chars : Json → List Char
  | null => "null".toList
  | bool true => "true".toList
  | bool false => "false".toList
  | int n => numeral n
  | real lexeme => lexeme.toList
  | str s => quoted s
  | arr items => '[' :: (itemChars items ++ [']'])
  | obj fields => '{' :: (fieldChars fields ++ ['}'])

def itemChars : List Json → List Char
  | [] => []
  | [v] => chars v
  | v :: w :: rest => chars v ++ ',' :: itemChars (w :: rest)

def fieldChars : List (String × Json) → List Char
  | [] => []
  | [(name, v)] => quoted name ++ ':' :: chars v
  | (name, v) :: w :: rest => quoted name ++ ':' :: (chars v ++ ',' :: fieldChars (w :: rest))

end

def text (v : Json) : String := String.ofList v.chars

end Docket.Json
