import Docket.Error
import Docket.Issuing.Layout

/-! # Checks on requests for counters

Checks run in a fixed order, and the first that fails is reported.
-/

namespace Docket.Issuing

open Docket.Text

def checkPadding (n : Nat) : Except Violation Unit :=
  if 1 ≤ n ∧ n ≤ 10 then .ok () else .error (.padding n)

def checkDocumentType (id : Id) : Except Violation Unit :=
  if id.isNil then .error .nilDocumentType else .ok ()

/-- A pattern must show the number. -/
def checkPattern : Option String → Except Violation Unit
  | none => .ok ()
  | some pattern =>
    if occurs Placeholder.number.word pattern.toList then .ok ()
    else .error (.patternWithoutNumber pattern)

def checkSettings (s : CounterSettings) : Except Violation Unit := do
  checkPadding s.padding
  checkPattern s.pattern

def checkStart (n : Int) : Except Violation Unit :=
  if n < 0 then .error (.negativeStart n) else .ok ()

def checkYear : Option Int → Except Violation Unit
  | none => .ok ()
  | some year => if year ≤ 0 then .error (.yearNotPositive year) else .ok ()

def checkNewCounter (c : NewCounter) : Except Violation Unit := do
  checkDocumentType c.key.documentType
  checkSettings c.settings
  checkStart c.start
  checkYear c.key.year

end Docket.Issuing
