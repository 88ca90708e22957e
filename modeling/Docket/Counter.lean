import Docket.Id
import Docket.Time.Instant

/-! # Counters

A counter hands out the consecutive values of a stream, the documents of one tenant, document type
and series. It may belong to a year, and it may start again when the year changes.
-/

namespace Docket

open Time

/-- Documents that are numbered together. -/
structure Stream where
  tenant : Id
  documentType : Id
  series : String
deriving DecidableEq

/-- What tells the live counters of a tenant apart. The empty series is the usual one. -/
structure CounterKey where
  documentType : Id
  series : String
  year : Option Int
deriving DecidableEq

/-- The part of a counter that may be configured again. -/
structure CounterSettings where
  /-- Text before the number. -/
  lead : Option String := none
  /-- Least width of the number. -/
  padding : Nat := 5
  pattern : Option String := none
  /-- Whether the values start again when the year changes. -/
  resets : Bool := true
  notes : Option String := none
deriving DecidableEq

/-- What the configuration of the service says of counters made on first use. -/
structure CounterDefaults where
  padding : Nat := 5
  resets : Bool := true
deriving DecidableEq

structure Counter where
  id : Id
  tenant : Id
  documentType : Id
  series : String
  year : Option Int
  /-- The value handed out last. -/
  value : Int
  settings : CounterSettings
  created : Stamp
  updated : Stamp
  retired : Option Instant
deriving DecidableEq

/-- Request for a counter; the first value it hands out follows `start`. -/
structure NewCounter where
  key : CounterKey
  start : Int
  settings : CounterSettings
deriving DecidableEq

/-- A number that was handed out. -/
structure Number where
  formatted : String
  value : Int
  year : Option Int
  counter : Id
deriving DecidableEq

namespace CounterKey

def text (k : CounterKey) : String :=
  let stream := k.documentType.text ++ "/" ++ k.series
  match k.year with
  | some year => stream ++ "/" ++ Text.ofInt year
  | none => stream

end CounterKey

namespace Counter

def key (c : Counter) : CounterKey := ⟨c.documentType, c.series, c.year⟩

def stream (c : Counter) : Stream := ⟨c.tenant, c.documentType, c.series⟩

def isLive (c : Counter) : Bool := c.retired.isNone

end Counter

end Docket
