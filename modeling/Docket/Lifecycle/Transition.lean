import Docket.Decimal.Text
import Docket.Error

/-! # Rules for changes of status

A table says which changes there are at all; each target status then has conditions of its own.
The first rule that a change breaks is reported.
-/

namespace Docket

namespace Status

def available : Status → List Status
  | draft => [opened, cancelled]
  | opened => [closed, draft, cancelled]
  | closed => []
  | cancelled => []

def canChangeTo (source target : Status) : Bool := source.available.contains target

def isFinal (s : Status) : Bool := s.available.isEmpty

end Status

/-- Rules that a change of status breaks. -/
inductive Objection where
  | notInTable (source target : Status)
  | openWithoutParty
  | openWithoutType
  | closeWithoutLines
  | closeWithoutTotal (total : Decimal)
  | closeWithoutParty
  | closeWithoutNumber
  | cancelAfterClose
  | revertUnopened (status : Status)
deriving DecidableEq

namespace Objection

def kind : Objection → RejectionKind
  | notInTable _ _ => .invalidTransition
  | openWithoutParty => .missingBusinessParty
  | openWithoutType => .missingDocumentType
  | closeWithoutLines => .noRows
  | closeWithoutTotal _ => .zeroTotal
  | closeWithoutParty => .missingBusinessParty
  | closeWithoutNumber => .missingNumber
  | cancelAfterClose => .cannotCancelClosed
  | revertUnopened _ => .invalidTransition

def message : Objection → String
  | notInTable source target =>
    "Cannot change status from " ++ source.text ++ " to " ++ target.text
  | openWithoutParty => "Cannot open: document has no business party"
  | openWithoutType => "Cannot open: document has no document type"
  | closeWithoutLines => "Cannot close: document has no rows"
  | closeWithoutTotal total => "Cannot close: gross total is " ++ total.text
  | closeWithoutParty => "Cannot close: document has no business party"
  | closeWithoutNumber => "Cannot close: document has no number assigned"
  | cancelAfterClose => "Cannot cancel a closed document"
  | revertUnopened status =>
    "Only open documents can return to " ++ Status.draft.text ++ ", current status is "
      ++ status.text

def error (o : Objection) : DocumentsError := .transition o.kind o.message

end Objection

inductive Verdict where
  | valid
  | rejected (o : Objection)
deriving DecidableEq

namespace Document

def checkOpen (d : Document) : Verdict :=
  if d.party.isNone then .rejected .openWithoutParty
  else if d.documentType.isNone then .rejected .openWithoutType
  else .valid

/-- A document is closed with lines, a positive total, a business party and a number. -/
def checkClose (d : Document) : Except Overflow Verdict :=
  if d.lines.isEmpty then .ok (.rejected .closeWithoutLines)
  else
    match d.grossTotal with
    | .error o => .error o
    | .ok total => .ok <|
      if !total.isPositive then .rejected (.closeWithoutTotal total)
      else if d.party.isNone then .rejected .closeWithoutParty
      else if d.number.isNone then .rejected .closeWithoutNumber
      else .valid

def checkCancel (d : Document) : Verdict :=
  if d.status = .closed then .rejected .cancelAfterClose else .valid

def checkRevert (d : Document) : Verdict :=
  if d.status = .opened then .valid else .rejected (.revertUnopened d.status)

/-- The verdict on a change of the document's status. -/
def checkChange (d : Document) (target : Status) : Except Overflow Verdict :=
  if d.status.canChangeTo target then
    match target with
    | .opened => .ok d.checkOpen
    | .closed => d.checkClose
    | .cancelled => .ok d.checkCancel
    | .draft => .ok d.checkRevert
  else .ok (.rejected (.notInTable d.status target))

end Document

end Docket
