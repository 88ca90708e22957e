import Docket.Text.Numeral
import Docket.Yaml.Character

/-! # Tags and directives of YAML texts

A tag is written in angles, or as a handle and a suffix; directives give handles their meaning.
Escaped bytes in tags are kept as characters of the same number.
-/

namespace Docket.Yaml

open Docket.Text

def isTagChar (c : Char) : Bool := isNameChar c || ";/?:@&=+$.!~*'()".toList.contains c

def octet? : List Char → Option (Nat × List Char)
  | '%' :: a :: b :: rest => do some (16 * (← hexDigit? a) + (← hexDigit? b), rest)
  | _ => none

/-- How many bytes a character has, by its first one. -/
def octetCount? (n : Nat) : Option Nat :=
  if n < 0x80 then some 1
  else if n < 0xC0 then none
  else if n < 0xE0 then some 2
  else if n < 0xF0 then some 3
  else if n < 0xF8 then some 4
  else none

/-- Bytes that continue a character. -/
def furtherOctets? : Nat → List Char → Option (List Char × List Char)
  | 0, cs => some ([], cs)
  | n + 1, cs => do
    let (o, rest) ← octet? cs
    if o < 0x80 ∨ 0xC0 ≤ o then none
    let (more, rest) ← furtherOctets? n rest
    some (Char.ofNat o :: more, rest)

/-- The escaped bytes of a character. -/
def octets? (cs : List Char) : Option (List Char × List Char) := do
  let (o, rest) ← octet? cs
  let (more, rest) ← furtherOctets? ((← octetCount? o) - 1) rest
  some (Char.ofNat o :: more, rest)

/-- Characters at the front of a text of which a tag may consist, with the further ones that it may
have in angles and in directives, and what follows them. -/
def tagChars? (inAngles : Bool) : Nat → List Char → Option (List Char × List Char)
  | 0, _ => none
  | _, [] => some ([], [])
  | fuel + 1, c :: cs =>
    if c == '%' then do
      let (found, rest) ← octets? (c :: cs)
      let (more, rest) ← tagChars? inAngles fuel rest
      some (found ++ more, rest)
    else if isTagChar c || (inAngles && (c == ',' || c == '[' || c == ']')) then
      (tagChars? inAngles fuel cs).map fun (more, rest) => (c :: more, rest)
    else some ([], c :: cs)

def beforeZero (cs : List Char) : List Char := cs.takeWhile (· != '\x00')

def tagPart? (inAngles : Bool) (cs : List Char) : Option (List Char × List Char) := do
  let (found, rest) ← tagChars? inAngles (cs.length + 1) cs
  if found = [] then none else some (beforeZero found, rest)

structure TagToken where
  /-- Empty for a tag that needs no directive. -/
  handle : List Char
  suffix : List Char
deriving DecidableEq

def tag? (cs : List Char) : Option (TagToken × List Char) :=
  match cs with
  | '<' :: rest => do
    let (suffix, rest) ← tagPart? true rest
    match rest with
    | '>' :: rest => some (⟨[], suffix⟩, rest)
    | _ => none
  | _ =>
    let name := cs.takeWhile isNameChar
    match cs.drop name.length with
    | '!' :: rest => do
      let (suffix, rest) ← tagPart? false rest
      some (⟨'!' :: (name ++ ['!']), suffix⟩, rest)
    | rest => do
      let (more, rest) ← tagChars? false (rest.length + 1) rest
      let suffix := beforeZero (name ++ more)
      some (if suffix = [] then ⟨[], ['!']⟩ else ⟨['!'], suffix⟩, rest)

/-! ## Directives -/

inductive Directive where
  | version (major minor : Nat)
  | handle (handle start : List Char)
deriving DecidableEq

def versionNumber? (cs : List Char) : Option (Nat × List Char) :=
  let ds := cs.takeWhile Char.isDigit
  if ds = [] ∨ 9 < ds.length then none else some (valueOf ds, cs.drop ds.length)

def version? (cs : List Char) : Option (Directive × List Char) := do
  let (major, rest) ← versionNumber? cs
  match rest with
  | '.' :: rest => do
    let (minor, rest) ← versionNumber? rest
    some (.version major minor, rest)
  | _ => none

/-- A handle: an exclamation mark, or a name between two of them. -/
def handle? (cs : List Char) : Option (List Char × List Char) :=
  match cs with
  | '!' :: cs =>
    let name := cs.takeWhile isNameChar
    match cs.drop name.length with
    | '!' :: rest => some ('!' :: (name ++ ['!']), rest)
    | rest => if name = [] then some (['!'], rest) else none
  | _ => none

def isParted (cs : List Char) : Bool := cs.head?.all isSpace

def handleMeaning? (cs : List Char) : Option (Directive × List Char) := do
  let (handle, rest) ← handle? cs
  if !rest.head?.any isBlank then none
  let (start, rest) ← tagPart? true (rest.dropWhile isBlank)
  if isParted rest then some (.handle handle start, rest) else none

def directive? (cs : List Char) : Option (Directive × List Char) :=
  let name := cs.takeWhile isNameChar
  let rest := cs.drop name.length
  if !isParted rest then none
  else if name = "YAML".toList then version? (rest.dropWhile isBlank)
  else if name = "TAG".toList then handleMeaning? (rest.dropWhile isBlank)
  else none

end Docket.Yaml
