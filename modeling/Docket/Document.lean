import Docket.Id
import Docket.Decimal.Arithmetic
import Docket.Time.Instant

/-! # Documents

A document has lines with amounts and a status, and carries a number once it was given one. Each
change of a document makes its version one greater; each change of its status is recorded.
-/

namespace Docket

open Time

inductive Status where
  | draft
  | opened
  | closed
  | cancelled
deriving DecidableEq

namespace Status

def all : List Status := [draft, opened, closed, cancelled]

def text : Status → String
  | draft => "DRAFT"
  | opened => "OPEN"
  | closed => "CLOSED"
  | cancelled => "CANCELLED"

def ofText? (s : String) : Option Status := all.find? fun status => status.text == s

theorem ofText?_text (status : Status) : ofText? status.text = some status := by
  cases status <;> decide

theorem ofText?_eq_some_iff {s : String} {status : Status} :
    ofText? s = some status ↔ s = status.text := by
  constructor
  · intro h
    have := List.find?_some h
    exact (beq_iff_eq.1 this).symm
  · rintro rfl
    exact ofText?_text status

end Status

structure Line where
  position : Int
  description : String
  quantity : Decimal
  unitPrice : Decimal
  vatRate : Decimal
deriving DecidableEq

structure Document where
  id : Id
  tenant : Id
  status : Status
  number : Option String
  party : Option Id
  documentType : Option Id
  lines : List Line
  closedAt : Option Instant
  version : Int
  created : Stamp
  updated : Stamp
deriving DecidableEq

structure StatusChange where
  id : Id := .nil
  document : Id
  source : Status
  target : Status
  reason : Option String
  changed : Stamp
  clientAddress : Option String
  userAgent : Option String
  /-- Version that the document has from this change on. -/
  version : Int
deriving DecidableEq

structure NewLine where
  description : String
  quantity : Decimal
  unitPrice : Decimal
  vatRate : Decimal
deriving DecidableEq

structure NewDocument where
  documentType : Option Id
  party : Option Id
  lines : List NewLine
deriving DecidableEq

namespace Line

/-- Amount with tax: the net amount and the tax on it, added up. -/
def gross (l : Line) : Except Overflow Decimal := do
  let net ← l.quantity.mul l.unitPrice
  net.add (← net.mul l.vatRate).hundredth

end Line

namespace Document

def grossSum (lines : List Line) : Except Overflow Decimal :=
  lines.foldlM (fun sum l => do sum.add (← l.gross)) .zero

/-- Sum of the gross amounts, rounded to two places at the end. -/
def grossTotal (d : Document) : Except Overflow Decimal := return (← grossSum d.lines).round 2

end Document

end Docket
