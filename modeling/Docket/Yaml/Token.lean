import Docket.Yaml.Scalar
import Docket.Yaml.Tag

/-! # Tokens of YAML texts

A text is cut into tokens in one pass. What starts a mapping is told only by the colon behind its
first key, so the place of a possible key is remembered, one for each level of brackets, and tokens
are put in there later on. Indentation opens and closes block collections.
-/

namespace Docket.Yaml

inductive Style where
  | plain
  | quoted
  | block
deriving DecidableEq

inductive Token where
  | directive (d : Directive)
  | documentStart
  | documentEnd
  | blockSequenceStart
  | blockMappingStart
  | blockEnd
  | flowSequenceStart
  | flowSequenceEnd
  | flowMappingStart
  | flowMappingEnd
  | blockEntry
  | flowEntry
  | key
  | value
  | alias (name : List Char)
  | anchor (name : List Char)
  | tag (t : TagToken)
  | scalar (style : Style) (text : List Char)
deriving DecidableEq

/-- A token that may turn out to start a key of one line. -/
structure PossibleKey where
  position : Nat
  /-- Whether nothing but a key may stand there. -/
  isRequired : Bool
  line : Nat
  column : Nat

/-- A text that is being cut. -/
structure Cutting where
  place : Place
  /-- The tokens so far, the last one first. -/
  tokens : List Token := []
  /-- Column of the innermost block collection; -1 outside of all. -/
  indent : Int := -1
  /-- Columns of the block collections around it. -/
  outer : List Int := []
  allowsKey : Bool := true
  /-- Possible keys of the innermost brackets and of those around them, the block level last. -/
  keys : List (Option PossibleKey) := [none]

namespace Cutting

def inFlow (s : Cutting) : Bool := decide (2 ≤ s.keys.length)

def emit (t : Token) (s : Cutting) : Cutting := { s with tokens := t :: s.tokens }

def insert (position : Nat) (t : Token) (s : Cutting) : Cutting :=
  { s with tokens := s.tokens.insertIdx (s.tokens.length - position) t }

def skip (n : Nat) (s : Cutting) : Cutting := { s with place := s.place.skip n }

def openBlock (column position : Nat) (t : Token) (s : Cutting) : Cutting :=
  if s.inFlow || decide ((column : Int) ≤ s.indent) then s
  else { s.insert position t with indent := column, outer := s.indent :: s.outer }

def closeBlocks (column : Int) (s : Cutting) : Cutting :=
  if s.inFlow then s
  else
    let deeper := (s.indent :: s.outer).takeWhile fun i => decide (column < i)
    let left := (s.indent :: s.outer).drop deeper.length
    { s with
      tokens := List.replicate deeper.length .blockEnd ++ s.tokens
      indent := left.headD (-1)
      outer := left.drop 1 }

/-! ## Possible keys -/

/-- Whether a possible key was left behind: a key is on one line, and its colon is near. -/
def isPast (s : Cutting) (k : PossibleKey) : Bool :=
  decide (k.line < s.place.line ∨ k.column + 1024 < s.place.column)

def dropPastKeys? (s : Cutting) : Option Cutting :=
  if s.keys.any fun k => k.any fun k => k.isRequired && s.isPast k then none
  else some { s with keys := s.keys.map fun k => k.filter fun k => !s.isPast k }

/-- Gives up the possible key of the innermost level. -/
def dropKey? (s : Cutting) : Option Cutting :=
  if (s.keys.headD none).any (·.isRequired) then none
  else some { s with keys := none :: s.keys.drop 1 }

/-- Remembers the place as that of a possible key, if a key may start here. -/
def saveKey? (s : Cutting) : Option Cutting :=
  if !s.allowsKey then some s
  else do
    let s ← s.dropKey?
    some { s with
      keys := some
        { position := s.tokens.length
          isRequired := !s.inFlow && decide (s.indent = s.place.column)
          line := s.place.line
          column := s.place.column } :: s.keys.drop 1 }

/-! ## Single tokens

Each of these is at the character that its token starts with.
-/

def document? (t : Token) (s : Cutting) : Option Cutting := do
  let s ← (s.closeBlocks (-1)).dropKey?
  some ({ s with allowsKey := false }.emit t |>.skip 3)

def directive? (s : Cutting) : Option Cutting := do
  let s ← (s.closeBlocks (-1)).dropKey?
  let (d, rest) ← Yaml.directive? (s.place.rest.drop 1)
  let place ← (s.place.moveTo rest).nextLine?
  some ({ s with allowsKey := false, place := place }.emit (.directive d))

def openFlow? (t : Token) (s : Cutting) : Option Cutting := do
  let s ← s.saveKey?
  some ({ s with keys := none :: s.keys, allowsKey := true }.emit t |>.skip 1)

def closeFlow? (t : Token) (s : Cutting) : Option Cutting := do
  let s ← s.dropKey?
  let keys := if s.inFlow then s.keys.drop 1 else s.keys
  some ({ s with keys := keys, allowsKey := false }.emit t |>.skip 1)

def flowEntry? (s : Cutting) : Option Cutting := do
  let s ← s.dropKey?
  some ({ s with allowsKey := true }.emit .flowEntry |>.skip 1)

/-- Opens a block collection at the place where a new entry may start. -/
def openHere? (t : Token) (s : Cutting) : Option Cutting :=
  if s.inFlow then some s
  else if s.allowsKey then some (s.openBlock s.place.column s.tokens.length t)
  else none

def blockEntry? (s : Cutting) : Option Cutting := do
  let s ← (← s.openHere? .blockSequenceStart).dropKey?
  some ({ s with allowsKey := true }.emit .blockEntry |>.skip 1)

def key? (s : Cutting) : Option Cutting := do
  let s ← (← s.openHere? .blockMappingStart).dropKey?
  some ({ s with allowsKey := !s.inFlow }.emit .key |>.skip 1)

def value? (s : Cutting) : Option Cutting :=
  match s.keys with
  | some k :: keys =>
    let s := (s.insert k.position .key).openBlock k.column k.position .blockMappingStart
    some ({ s with keys := none :: keys, allowsKey := false }.emit .value |>.skip 1)
  | _ => do
    let s ← s.openHere? .blockMappingStart
    some ({ s with allowsKey := !s.inFlow }.emit .value |>.skip 1)

def reference? (token : List Char → Token) (s : Cutting) : Option Cutting := do
  let s ← s.saveKey?
  let name := (s.place.rest.drop 1).takeWhile isNameChar
  let s := s.skip (1 + name.length)
  let isEnded := s.place.endsAfter 0 || s.place.isAt ("?:,]\x7d%@\x60".toList.contains ·)
  if name = [] || !isEnded then none
  else some ({ s with allowsKey := false }.emit (token name))

def tag? (s : Cutting) : Option Cutting := do
  let s ← s.saveKey?
  let (t, rest) ← Yaml.tag? (s.place.rest.drop 1)
  let s := { s with allowsKey := false, place := s.place.moveTo rest }
  if s.place.endsAfter 0 || (s.inFlow && s.place.isAt (· == ',')) then some (s.emit (.tag t))
  else none

def block? (isFolded : Bool) (s : Cutting) : Option Cutting := do
  let s ← s.dropKey?
  let (text, place) ← Yaml.block? isFolded s.indent s.place.next
  some ({ s with allowsKey := true, place := place }.emit (.scalar .block text))

def quoted? (quote : Char) (s : Cutting) : Option Cutting := do
  let s ← s.saveKey?
  let (text, place) ← Yaml.quoted? quote (s.place.rest.length + 1) s.place.next
  some ({ s with allowsKey := false, place := place }.emit (.scalar .quoted text))

/-- Characters that start no plain scalar, whatever follows them. -/
def startsNone (c : Char) : Bool := ",[]\x7b\x7d#&*!|>'\"%@\x60".toList.contains c

def plain? (s : Cutting) : Option Cutting := do
  let c ← s.place.rest.head?
  let isStart :=
    if c == '-' then !s.place.rest[1]?.any isBlank
    else if c == '?' || c == ':' then !s.inFlow && !s.place.endsAfter 1
    else !startsNone c && !isSpace c
  if !isStart then none
  let s ← s.saveKey?
  let indent := (s.indent + 1).toNat
  let found ← Yaml.plain? s.inFlow indent (s.place.rest.length + 1) {} s.place
  let s : Cutting := { s with allowsKey := found.isBroken, place := found.place }
  some (s.emit (.scalar .plain found.text))

/-! ## All tokens -/

/-- Moves over blanks, comments and line breaks. Tabs do not stand where a key may start outside
brackets. -/
def skipSpace : Nat → Cutting → Cutting
  | 0, s => s
  | n + 1, s =>
    let place := s.place.skipWhile fun c => c == ' ' || (c == '\t' && (s.inFlow || !s.allowsKey))
    let place := if place.isAt (· == '#') then place.skipWhile (!isBreak ·) else place
    if place.isAt isBreak then
      skipSpace n { s with place := place.next, allowsKey := s.allowsKey || !s.inFlow }
    else { s with place := place }

/-- The next token, or several, at a place where one starts. -/
def token? (c : Char) (s : Cutting) : Option Cutting :=
  let endsHere := s.place.endsAfter 1
  if s.place.column == 0 && c == '%' then s.directive?
  else if s.place.isMarker '-' then s.document? .documentStart
  else if s.place.isMarker '.' then s.document? .documentEnd
  else if c == '[' then s.openFlow? .flowSequenceStart
  else if c == '{' then s.openFlow? .flowMappingStart
  else if c == ']' then s.closeFlow? .flowSequenceEnd
  else if c == '}' then s.closeFlow? .flowMappingEnd
  else if c == ',' then s.flowEntry?
  else if c == '-' && endsHere then s.blockEntry?
  else if c == '?' && (s.inFlow || endsHere) then s.key?
  else if c == ':' && (s.inFlow || endsHere) then s.value?
  else if c == '*' then s.reference? .alias
  else if c == '&' then s.reference? .anchor
  else if c == '!' then s.tag?
  else if c == '|' && !s.inFlow then s.block? false
  else if c == '>' && !s.inFlow then s.block? true
  else if c == '\'' || c == '"' then s.quoted? c
  else s.plain?

def run? : Nat → Cutting → Option (List Token)
  | 0, _ => none
  | fuel + 1, s => do
    let s ← (s.skipSpace (s.place.rest.length + 1)).dropPastKeys?
    let s := s.closeBlocks s.place.column
    match s.place.rest with
    | [] => do
      let s ← (s.closeBlocks (-1)).dropKey?
      some s.tokens.reverse
    | c :: _ => run? fuel (← s.token? c)

end Cutting

/-- The tokens of a text. A mark of the byte order at its front takes a column. -/
def tokens? (text : String) : Option (List Token) :=
  let cs := text.toList
  if !cs.all isAllowed then none
  else
    let place : Place := ⟨unified cs, 0, 0⟩
    let place := if place.isAt (· == '\ufeff') then place.next else place
    Cutting.run? (cs.length + 2) { place := place }

end Docket.Yaml
