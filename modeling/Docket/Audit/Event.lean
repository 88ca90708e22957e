import Docket.Counter
import Docket.Document

/-! # Audit events

Each change that was stored is reported by an event, after the fact.
-/

namespace Docket.Audit

open Time

structure CounterChanged where
  counter : Id
  tenant : Id
  documentType : Id
  series : String
  year : Option Int
  user : String
  time : Instant
deriving DecidableEq

structure NumberAllocated where
  counter : Id
  tenant : Id
  number : String
  value : Int
  user : String
  time : Instant
deriving DecidableEq

structure DocumentChanged where
  document : Id
  tenant : Id
  number : Option String
  version : Int
  user : String
  time : Instant
deriving DecidableEq

/-- Statuses are kept as they are written. -/
structure StatusChanged where
  document : Id
  tenant : Id
  source : String
  target : String
  reason : Option String
  user : String
  clientAddress : Option String
  time : Instant
deriving DecidableEq

inductive Event where
  | counterCreated (c : CounterChanged)
  | counterUpdated (c : CounterChanged)
  | counterRetired (c : CounterChanged)
  | numberAllocated (n : NumberAllocated)
  | documentCreated (d : DocumentChanged)
  | numberAssigned (d : DocumentChanged)
  | statusChanged (s : StatusChanged)
deriving DecidableEq

def CounterChanged.of (c : Counter) (stamp : Stamp) : CounterChanged :=
  { counter := c.id
    tenant := c.tenant
    documentType := c.documentType
    series := c.series
    year := c.year
    user := stamp.user
    time := stamp.time }

def NumberAllocated.of (tenant : Id) (n : Number) (stamp : Stamp) : NumberAllocated :=
  { counter := n.counter
    tenant := tenant
    number := n.formatted
    value := n.value
    user := stamp.user
    time := stamp.time }

def DocumentChanged.of (d : Document) (stamp : Stamp) : DocumentChanged :=
  { document := d.id
    tenant := d.tenant
    number := d.number
    version := d.version
    user := stamp.user
    time := stamp.time }

def StatusChanged.of (tenant : Id) (c : StatusChange) : StatusChanged :=
  { document := c.document
    tenant := tenant
    source := c.source.text
    target := c.target.text
    reason := c.reason
    user := c.changed.user
    clientAddress := c.clientAddress
    time := c.changed.time }

end Docket.Audit
