import Docket.Counter
import Docket.Text.Basic

/-! # Layout of document numbers

A number consists of the counter's lead, its series, its year and the padded value. A pattern says
where they go; without one they follow each other with slashes between them.
-/

namespace Docket.Issuing

open Docket.Text

/-- The words of a pattern that stand for parts of a number. -/
inductive Placeholder where
  | lead
  | series
  | year
  | number
deriving DecidableEq

/-- The order in which the parts take the places of their words. -/
def Placeholder.all : List Placeholder := [lead, series, year, number]

def Placeholder.word : Placeholder → List Char
  | lead => "\x7bPREFIX\x7d".toList
  | series => "\x7bSERIES\x7d".toList
  | year => "\x7bYEAR\x7d".toList
  | number => "\x7bNUMBER\x7d".toList

/-- What a counter shows in a number. -/
structure Snapshot where
  lead : Option String
  series : String
  year : Option Int
  value : Int
  padding : Nat
  pattern : Option String
deriving DecidableEq

namespace Snapshot

def part (s : Snapshot) : Placeholder → List Char
  | .lead => (s.lead.getD "").toList
  | .series => s.series.toList
  | .year => (s.year.map numeral).getD []
  | .number => padded s.padding s.value

/-- Pattern with each part in the places of its word, one part after another. Words that come in
with an earlier part are taken for words of the pattern. -/
def fill (s : Snapshot) (pattern : List Char) : List Char :=
  Placeholder.all.foldl (fun text p => replaceAll p.word (s.part p) text) pattern

/-- The parts that are not empty, with slashes between them. -/
def joined (s : Snapshot) : List Char :=
  List.intercalate ['/'] ((Placeholder.all.map s.part).filter (· ≠ []))

def chars (s : Snapshot) : List Char :=
  match s.pattern with
  | some pattern => s.fill pattern.toList
  | none => s.joined

def text (s : Snapshot) : String := String.ofList s.chars

end Snapshot

end Docket.Issuing

namespace Docket.Counter

open Issuing

def snapshot (c : Counter) : Snapshot :=
  { lead := c.settings.lead
    series := c.series
    year := c.year
    value := c.value
    padding := c.settings.padding
    pattern := c.settings.pattern }

/-- The number that a counter has just handed out. -/
def number (c : Counter) : Number := ⟨c.snapshot.text, c.value, c.year, c.id⟩

end Docket.Counter
