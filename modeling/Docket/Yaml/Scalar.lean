import Docket.Text.Numeral
import Docket.Yaml.Character

/-! # Scalars of YAML texts

Plain, quoted and block scalars as texts. In the first two, blanks at line breaks vanish, a single
break becomes a space, and of several breaks the first is dropped; block scalars keep their lines,
or fold them in the same way where neither line starts with a blank.
-/

namespace Docket.Yaml

open Docket.Text

/-- Blanks and line breaks between two parts of a scalar. -/
structure Gap where
  /-- Blanks before the first line break. -/
  blanks : List Char := []
  breaks : List Char := []

namespace Gap

def of (cs : List Char) : Gap := ⟨cs.takeWhile isBlank, cs.filter isBreak⟩

def folded (g : Gap) : List Char :=
  match g.breaks with
  | [] => g.blanks
  | ['\n'] => [' ']
  | '\n' :: more => more
  | breaks => breaks

end Gap

/-! ## Quoted scalars -/

def character? (ds : List Char) : Option Char := do
  let n ← hexValue? ds
  if n < 0xD800 ∨ 0xE000 ≤ n ∧ n < 0x110000 then some (Char.ofNat n) else none

def escapes : List (Char × Char) :=
  [('0', '\x00'), ('a', '\x07'), ('b', '\x08'), ('t', '\t'), ('\t', '\t'), ('n', '\n'),
   ('v', '\x0b'), ('f', '\x0c'), ('r', '\r'), ('e', '\x1b'), (' ', ' '), ('"', '"'), ('/', '/'),
   ('\\', '\\'), ('N', '\u0085'), ('_', '\u00a0'), ('L', '\u2028'), ('P', '\u2029')]

/-- Digits that follow the letter of an escape by number. -/
def escapeWidth : Char → Option Nat
  | 'x' => some 2
  | 'u' => some 4
  | 'U' => some 8
  | _ => none

/-- The character that an escape stands for, and how many characters it takes. -/
def escape? (letter : Char) (rest : List Char) : Option (Char × Nat) :=
  match escapeWidth letter with
  | some width =>
    if rest.length < width then none
    else (character? (rest.take width)).map fun c => (c, 1 + width)
  | none => (escapes.lookup letter).map fun c => (c, 1)

/-- Text up to the quote that ends it, and the place behind that. -/
def quoted? (quote : Char) : Nat → Place → Option (List Char × Place)
  | 0, _ => none
  | fuel + 1, p =>
    let before (text : List Char) (p : Place) : Option (List Char × Place) :=
      (quoted? quote fuel p).map fun (more, q) => (text ++ more, q)
    if p.atMarker then none
    else
      match p.rest with
      | [] => none
      | c :: cs =>
        if c == quote then
          if c == '\'' && cs.head? == some '\'' then before [c] (p.skip 2) else some ([], p.next)
        else if isSpace c then
          let gap := p.rest.takeWhile isSpace
          before (Gap.of gap).folded (p.skip gap.length)
        else if quote == '"' && c == '\\' then
          match cs with
          | [] => none
          | d :: ds =>
            if isBreak d then
              let gap := ds.takeWhile isSpace
              before (gap.filter isBreak) (p.skip (2 + gap.length))
            else
              match escape? d ds with
              | some (x, taken) => before [x] (p.skip (1 + taken))
              | none => none
        else before [c] p.next

/-! ## Plain scalars -/

/-- Characters of a plain scalar before the next blank or before its end. A colon before a
character that ends scalars between brackets does not stand in one. -/
def word? (inFlow : Bool) : List Char → Option (List Char)
  | [] => some []
  | c :: cs =>
    if isSpace c || (c == ':' && cs.head?.all isSpace) || (inFlow && isFlowIndicator c) then some []
    else if inFlow && c == ':' && cs.head?.any fun d => d == '?' || isFlowIndicator d then none
    else (word? inFlow cs).map (c :: ·)

/-- Whether a tab stands in the indentation of a line after the first. -/
def hasTab (indent : Nat) (gap : List Char) : Bool :=
  ((gap.splitOnP isBreak).drop 1).any fun blanks => (blanks.take indent).contains '\t'

structure Plain where
  text : List Char
  /-- The place behind the scalar and the blanks and line breaks that follow it. -/
  place : Place
  isBroken : Bool

/-- The rest of a plain scalar behind a gap. A scalar outside brackets goes on only in lines that
are indented. -/
def plain? (inFlow : Bool) (indent : Nat) : Nat → Gap → Place → Option Plain
  | 0, _, _ => none
  | fuel + 1, gap, p =>
    let isBroken := gap.breaks != []
    if p.atMarker || p.isAt (· == '#') then some ⟨[], p, isBroken⟩
    else do
      let word ← word? inFlow p.rest
      if word = [] then some ⟨[], p, isBroken⟩
      else
        let text := gap.folded ++ word
        let p := p.skip word.length
        let cs := p.rest.takeWhile isSpace
        let q := p.skip cs.length
        if cs = [] then some ⟨text, p, false⟩
        else if hasTab indent cs then none
        else if !inFlow && decide (q.column < indent) then
          some ⟨text, q, (Gap.of cs).breaks != []⟩
        else do
          let more ← plain? inFlow indent fuel (Gap.of cs) q
          some { more with text := text ++ more.text }

/-! ## Block scalars -/

/-- What becomes of the line breaks at the end of a block scalar. -/
inductive Chomping where
  /-- One is kept. -/
  | clip
  | strip
  | keep
deriving DecidableEq

def chomping? : Char → Option Chomping
  | '+' => some .keep
  | '-' => some .strip
  | _ => none

/-- A digit above zero that tells an indentation; 0 stands for none. -/
def increment? : List Char → Option (Nat × List Char)
  | '0' :: _ => none
  | c :: rest => if c.isDigit then some (c.toNat - 48, rest) else some (0, c :: rest)
  | [] => some (0, [])

/-- The marks behind the sign of a block scalar, in either order. -/
def marks? (cs : List Char) : Option (Chomping × Nat × List Char) := do
  match cs.head?.bind chomping? with
  | some chomping =>
    let (n, rest) ← increment? (cs.drop 1)
    some (chomping, n, rest)
  | none =>
    let (n, rest) ← increment? cs
    match rest.head?.bind chomping? with
    | some chomping => some (chomping, n, rest.drop 1)
    | none => some (.clip, n, rest)

/-- Line breaks of empty lines, the deepest indentation on the way, and the place of the next line's
text. Without an indentation, which is 0 then, all spaces are skipped. -/
def emptyLines? (indent : Nat) : Nat → Place → Option (List Char × Nat × Place)
  | 0, _ => none
  | fuel + 1, p =>
    let spaces := (p.rest.takeWhile (· == ' ')).length
    let p := p.skip (if indent = 0 then spaces else min spaces (indent - p.column))
    if (indent == 0 || decide (p.column < indent)) && p.isAt (· == '\t') then none
    else
      match p.rest with
      | [] => some ([], p.column, p)
      | c :: _ =>
        if isBreak c then do
          let (breaks, deepest, q) ← emptyLines? indent fuel p.next
          some (c :: breaks, max p.column deepest, q)
        else some ([], p.column, p)

/-- Lines of a block scalar, of which the last is without its line breaks. -/
structure BlockText where
  text : List Char
  /-- The line break that ends the last line, if there is one. -/
  ending : List Char
  /-- Line breaks of the empty lines behind the last line. -/
  empty : List Char
  place : Place

/-- The lines at an indentation behind a line that may start with a blank, with the breaks that
ended it and the empty lines behind it. -/
def blockLines? (isFolded : Bool) (indent : Nat) :
    Nat → Bool → List Char → List Char → Place → Option BlockText
  | 0, _, _, _, _ => none
  | fuel + 1, afterBlank, ending, empty, p =>
    if p.column ≠ indent ∨ p.rest = [] then some ⟨[], ending, empty, p⟩
    else do
      let startsBlank := p.isAt isBlank
      let joint :=
        if isFolded && ending == ['\n'] && !afterBlank && !startsBlank then
          if empty = [] then [' '] else []
        else ending
      let line := p.rest.takeWhile (!isBreak ·)
      let p := p.skip line.length
      let (breaks, _, q) ← emptyLines? indent (p.rest.length + 1) p.next
      let more ← blockLines? isFolded indent fuel startsBlank (p.rest.take 1) breaks q
      some { more with text := joint ++ empty ++ line ++ more.text }

/-- Text of a block scalar, given the place behind its sign and the indentation around it. -/
def block? (isFolded : Bool) (around : Int) (p : Place) : Option (List Char × Place) := do
  let (chomping, increment, rest) ← marks? p.rest
  let p ← (p.moveTo rest).nextLine?
  let given := if increment = 0 then 0 else (max around 0).toNat + increment
  let (breaks, deepest, p) ← emptyLines? given (p.rest.length + 1) p
  let indent := if given = 0 then max deepest (max (around + 1) 1).toNat else given
  let found ← blockLines? isFolded indent (p.rest.length + 1) false [] breaks p
  let tail := match chomping with
    | .strip => []
    | .clip => found.ending
    | .keep => found.ending ++ found.empty
  some (found.text ++ tail, found.place)

end Docket.Yaml
