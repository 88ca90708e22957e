import Docket.Lifecycle.Transition
import Docket.Service.Counters

/-! # Operations on documents

A document is created as a draft. Each later change starts from the stored document and is stored
only if the document has not been changed since.
-/

namespace Docket.Service

open Issuing

/-- Position of the line after `n` others. -/
def positionAfter (n : Nat) : Int := min (n + 1) (int32Bound - 1)

def newDocument (service : Service) (call : Call) (tenant : Id) (new : NewDocument) : Document :=
  { id := call.fresh
    tenant := tenant
    status := .draft
    number := none
    party := new.party
    documentType := new.documentType
    lines := new.lines.zipIdx.map fun (l, n) =>
      { position := positionAfter n
        description := l.description
        quantity := l.quantity
        unitPrice := l.unitPrice
        vatRate := l.vatRate }
    closedAt := none
    version := 1
    created := service.stamp call
    updated := service.stamp call }

/-- A document may lack a type or a party, but not name none. -/
def checkReferences (new : NewDocument) : Except Violation Unit :=
  if new.documentType.any Id.isNil || new.party.any Id.isNil then .error .nilReference else .ok ()

def createDocument (service : Service) (call : Call) (new : NewDocument) :
    Action (Outcome Document) := do
  let tenant ← scope call
  Action.check (checkReferences new)
  start call
  let created : Document ← Action.ask (.insertDocument (service.newDocument call tenant new))
  return ⟨created, [.documentCreated (.of created (service.stamp call))]⟩

def load (tenant id : Id) : Action Document := do
  Action.found "document" id.text (← Action.ask (.findDocument tenant id))

def getDocument (call : Call) (id : Id) : Action (Outcome Document) := do
  let tenant ← scope call
  start call
  return ⟨← load tenant id, []⟩

def checkUnnumbered (d : Document) : Except Clash Unit :=
  if d.status.isFinal then .error (.finalStatus d.id d.status)
  else
    match d.number with
    | some number => .error (.alreadyNumbered d.id number)
    | none => .ok ()

/-- The type that a document is numbered by. -/
def numberingType (d : Document) : Except Violation Id :=
  match d.documentType with
  | some documentType => .ok documentType
  | none => .error .untypedDocument

def assignNumber (service : Service) (call : Call) (id : Id) (series : String) :
    Action (Outcome Document) := do
  let tenant ← scope call
  start call
  let document ← load tenant id
  match checkUnnumbered document with
  | .error clash => Action.fail clash.error
  | .ok () =>
    match numberingType document with
    | .error violation => Action.fail violation.error
    | .ok documentType =>
      let version ← Action.compute (succ? document.version)
      let stream : Stream := ⟨tenant, documentType, series⟩
      let pending := { document with version := version, updated := service.stamp call }
      Action.ask (.acquire stream)
      let (numbered, number) : Document × Number ← service.attempt
        (.assignNumber pending document.version (service.allocation call stream))
      return ⟨numbered,
        [.numberAllocated (.of tenant number (service.stamp call)),
         .numberAssigned (.of numbered (service.stamp call))]⟩

def changed (service : Service) (call : Call) (d : Document) (target : Status) (version : Int) :
    Document :=
  { d with
    status := target
    closedAt := if target = .closed then some call.now else d.closedAt
    version := version
    updated := service.stamp call }

/-- The record of a change of status; a reason without visible text is none. -/
def change (service : Service) (call : Call) (d : Document) (target : Status)
    (reason : Option String) (version : Int) : StatusChange :=
  { id := call.fresh
    document := d.id
    source := d.status
    target := target
    reason := reason.filter fun r => !Text.isBlank r
    changed := service.stamp call
    clientAddress := call.caller.clientAddress
    userAgent := call.caller.userAgent
    version := version }

/-- Changes the status of a document if the rules allow it, and records the change. -/
def changeStatus (service : Service) (call : Call) (id : Id) (target : Status)
    (reason : Option String) : Action (Outcome Document) := do
  let tenant ← scope call
  start call
  let document ← load tenant id
  match ← Action.compute (document.checkChange target) with
  | .rejected objection => Action.fail objection.error
  | .valid =>
    let version ← Action.compute (succ? document.version)
    let entry := service.change call document target reason version
    let saved : Document ← Action.ask
      (.applyChange (service.changed call document target version) document.version entry)
    return ⟨saved, [.statusChanged (.of tenant entry)]⟩

/-- The statuses that a document may change to; none if there is no such document. -/
def availableTransitions (call : Call) (id : Id) : Action (Outcome (List Status)) := do
  let tenant ← scope call
  start call
  let status : Option Status ← Action.ask (.findStatus tenant id)
  return ⟨(status.map Status.available).getD [], []⟩

def statusHistory (call : Call) (id : Id) : Action (Outcome (List StatusChange)) := do
  let tenant ← scope call
  start call
  let changes : List StatusChange ← Action.ask (.listChanges tenant id)
  return ⟨changes, []⟩

/-- The verdict on a change of status, without making it. -/
def validateTransition (call : Call) (id : Id) (target : Status) : Action (Outcome Verdict) := do
  let tenant ← scope call
  start call
  let document ← load tenant id
  return ⟨← Action.compute (document.checkChange target), []⟩

end Docket.Service
