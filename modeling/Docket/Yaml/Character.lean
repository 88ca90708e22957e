/-! # Characters of YAML texts

Which characters a text may hold, which of them are blank or break lines, and places in a text.
Line breaks are unified first, so that each is one character: a line feed, or one of the two
separators of lines and paragraphs, which are kept as they are.
-/

namespace Docket.Yaml

/-- Characters that a text may hold: of control characters only tabs and ends of lines. -/
def isAllowed (c : Char) : Bool :=
  c == '\t' || c == '\n' || c == '\r' || (' ' ≤ c && c ≤ '~') || c == '\u0085'
    || ('\u00a0' ≤ c && c ≤ '\ufffd') || 0x10000 ≤ c.toNat

/-- Text in which a carriage return, alone or before a line feed, and a next line are line
feeds. -/
def unified : List Char → List Char
  | '\r' :: '\n' :: rest => '\n' :: unified rest
  | '\r' :: rest => '\n' :: unified rest
  | '\u0085' :: rest => '\n' :: unified rest
  | c :: rest => c :: unified rest
  | [] => []

def isBlank (c : Char) : Bool := c == ' ' || c == '\t'

def isBreak (c : Char) : Bool := c == '\n' || c == '\u2028' || c == '\u2029'

def isSpace (c : Char) : Bool := isBlank c || isBreak c

def isNameChar (c : Char) : Bool := c.isAlphanum || c == '_' || c == '-'

/-- Characters that end plain scalars between brackets. -/
def isFlowIndicator (c : Char) : Bool := c == ',' || c == '[' || c == ']' || c == '{' || c == '}'

/-- A place in a text: what follows it, and its line and column. -/
structure Place where
  rest : List Char
  line : Nat := 0
  column : Nat := 0

namespace Place

def next (p : Place) : Place :=
  match p.rest with
  | [] => p
  | c :: cs => if isBreak c then ⟨cs, p.line + 1, 0⟩ else ⟨cs, p.line, p.column + 1⟩

def skip : Nat → Place → Place
  | 0, p => p
  | n + 1, p => p.next.skip n

def skipWhile (f : Char → Bool) (p : Place) : Place := p.skip (p.rest.takeWhile f).length

def moveTo (rest : List Char) (p : Place) : Place := p.skip (p.rest.length - rest.length)

def isAt (f : Char → Bool) (p : Place) : Bool := p.rest.head?.any f

def endsAfter (n : Nat) (p : Place) : Bool := p.rest[n]?.all isSpace

/-- Whether the marker of a document's start or end begins a line. -/
def isMarker (marker : Char) (p : Place) : Bool :=
  p.column == 0 && p.rest.take 3 == [marker, marker, marker] && p.endsAfter 3

def atMarker (p : Place) : Bool := p.isMarker '-' || p.isMarker '.'

def skipComment (p : Place) : Place :=
  let p := p.skipWhile isBlank
  if p.isAt (· == '#') then p.skipWhile (!isBreak ·) else p

/-- The start of the next line, if nothing but a comment comes before it. -/
def nextLine? (p : Place) : Option Place :=
  let p := p.skipComment
  if p.isAt (!isBreak ·) then none else some p.next

end Place

end Docket.Yaml
