import Docket.Error
import Docket.Decimal.Double

/-! # Stored rows

The rows in which counters, documents, lines and changes of status are kept. A row can hold more
than it should: any padding, any text as a status. Reading a row says whether it means anything.
-/

namespace Docket.Store

open Time

structure CounterRow where
  id : Id
  tenant : Id
  documentType : Id
  series : String
  year : Option Int
  value : Int
  lead : Option String
  padding : Int
  pattern : Option String
  resets : Bool
  notes : Option String
  created : Stamp
  updated : Stamp
  retired : Option Instant
deriving DecidableEq

structure DocumentRow where
  id : Id
  tenant : Id
  status : String
  number : Option String
  party : Option Id
  documentType : Option Id
  closedAt : Option Instant
  version : Int
  created : Stamp
  updated : Stamp
deriving DecidableEq

/-- The columns of a line, with amounts as they are given or as they are stored. -/
structure LineColumns (Amount : Type) where
  document : Id
  position : Int
  description : String
  quantity : Amount
  unitPrice : Amount
  vatRate : Amount
deriving DecidableEq

abbrev LineRow := LineColumns Double

structure ChangeRow where
  id : Id := .nil
  document : Id
  tenant : Id
  source : String
  target : String
  reason : Option String
  changed : Stamp
  clientAddress : Option String
  userAgent : Option String
  version : Int
deriving DecidableEq

def readStatus (text : String) : Except DecodeFailure Status :=
  match Status.ofText? text with
  | some status => .ok status
  | none => .error (.status text)

namespace CounterRow

def encode (c : Counter) : CounterRow :=
  { id := c.id
    tenant := c.tenant
    documentType := c.documentType
    series := c.series
    year := c.year
    value := c.value
    lead := c.settings.lead
    padding := c.settings.padding
    pattern := c.settings.pattern
    resets := c.settings.resets
    notes := c.settings.notes
    created := c.created
    updated := c.updated
    retired := c.retired }

/-- A padding of a byte that is also in the range of paddings. -/
def readPadding (id : Id) (n : Int) : Except DecodeFailure Nat :=
  if n < 0 ∨ 255 < n then .error (.paddingWidth id n)
  else if 1 ≤ n ∧ n ≤ 10 then .ok n.toNat
  else .error (.padding n.toNat)

def yearFits (r : CounterRow) : Bool :=
  r.year.all fun y => decide (-int32Bound ≤ y ∧ y < int32Bound)

def paddingFits (r : CounterRow) : Bool :=
  decide (-int16Bound ≤ r.padding ∧ r.padding < int16Bound)

/-- Integers must be in the range of their columns, whatever they mean. -/
def checkColumns (r : CounterRow) : Except DecodeFailure Unit :=
  if !r.yearFits then .error (.column "year" (r.year.getD 0))
  else if !r.paddingFits then .error (.column "padding_length" r.padding)
  else .ok ()

def decode (r : CounterRow) : Except DecodeFailure Counter := do
  r.checkColumns
  let padding ← readPadding r.id r.padding
  return {
    id := r.id
    tenant := r.tenant
    documentType := r.documentType
    series := r.series
    year := r.year
    value := r.value
    settings :=
      { lead := r.lead
        padding := padding
        pattern := r.pattern
        resets := r.resets
        notes := r.notes }
    created := r.created
    updated := r.updated
    retired := r.retired }

/-- Reads rows together: the columns of all of them come before what any of them means. -/
def decodeAll (rows : List CounterRow) : Except DecodeFailure (List Counter) := do
  rows.forM checkColumns
  rows.mapM decode

def isLive (r : CounterRow) : Bool := r.retired.isNone

def key (r : CounterRow) : CounterKey := ⟨r.documentType, r.series, r.year⟩

def stream (r : CounterRow) : Stream := ⟨r.tenant, r.documentType, r.series⟩

/-- The key that no two live rows share. No year and the year 0 are the same here. -/
def liveKey (r : CounterRow) : Stream × Int := (r.stream, r.year.getD 0)

def configured (r : CounterRow) (c : Counter) : CounterRow :=
  { r with
    lead := c.settings.lead
    padding := c.settings.padding
    pattern := c.settings.pattern
    resets := c.settings.resets
    notes := c.settings.notes
    updated := c.updated }

def advanced (r : CounterRow) (c : Counter) : CounterRow :=
  { r with year := c.year, value := c.value, updated := c.updated }

def retire (r : CounterRow) (stamp : Stamp) : CounterRow :=
  { r with retired := some stamp.time, updated := stamp }

end CounterRow

namespace LineColumns

variable {α β : Type}

def of (document : Id) (l : Line) : LineColumns Decimal :=
  { document := document
    position := l.position
    description := l.description
    quantity := l.quantity
    unitPrice := l.unitPrice
    vatRate := l.vatRate }

def line (r : LineColumns Decimal) : Line :=
  { position := r.position
    description := r.description
    quantity := r.quantity
    unitPrice := r.unitPrice
    vatRate := r.vatRate }

def map (f : α → β) (r : LineColumns α) : LineColumns β :=
  { r with quantity := f r.quantity, unitPrice := f r.unitPrice, vatRate := f r.vatRate }

def mapM {m : Type → Type} [Monad m] (f : α → m β) (r : LineColumns α) : m (LineColumns β) := do
  return { r with
    quantity := ← f r.quantity
    unitPrice := ← f r.unitPrice
    vatRate := ← f r.vatRate }

end LineColumns

namespace LineRow

def encode (document : Id) (l : Line) : LineRow := (LineColumns.of document l).map .ofDecimal

def readAmount (x : Double) : Except DecodeFailure Decimal :=
  match x.toDecimal? with
  | some d => .ok d
  | none => .error .amount

def decode (r : LineRow) : Except DecodeFailure Line := return (← r.mapM readAmount).line

end LineRow

namespace DocumentRow

def encode (d : Document) : DocumentRow :=
  { id := d.id
    tenant := d.tenant
    status := d.status.text
    number := d.number
    party := d.party
    documentType := d.documentType
    closedAt := d.closedAt
    version := d.version
    created := d.created
    updated := d.updated }

def decode (r : DocumentRow) (lines : List Line) : Except DecodeFailure Document :=
  match Status.ofText? r.status with
  | none => .error (.documentStatus r.id r.status)
  | some status => .ok
    { id := r.id
      tenant := r.tenant
      status := status
      number := r.number
      party := r.party
      documentType := r.documentType
      lines := lines
      closedAt := r.closedAt
      version := r.version
      created := r.created
      updated := r.updated }

def moved (r : DocumentRow) (d : Document) : DocumentRow :=
  { r with
    status := d.status.text
    closedAt := d.closedAt
    version := d.version
    updated := d.updated }

def numbered (r : DocumentRow) (d : Document) (number : String) : DocumentRow :=
  { r with number := some number, version := d.version, updated := d.updated }

end DocumentRow

namespace ChangeRow

def encode (tenant : Id) (c : StatusChange) : ChangeRow :=
  { id := c.id
    document := c.document
    tenant := tenant
    source := c.source.text
    target := c.target.text
    reason := c.reason
    changed := c.changed
    clientAddress := c.clientAddress
    userAgent := c.userAgent
    version := c.version }

def decode (r : ChangeRow) : Except DecodeFailure StatusChange := do
  let source ← readStatus r.source
  let target ← readStatus r.target
  return {
    id := r.id
    document := r.document
    source := source
    target := target
    reason := r.reason
    changed := r.changed
    clientAddress := r.clientAddress
    userAgent := r.userAgent
    version := r.version }

end ChangeRow

end Docket.Store
