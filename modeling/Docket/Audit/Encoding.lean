import Docket.Audit.Event
import Docket.Json.Reader
import Docket.Json.Writer
import Docket.Time.Written

/-! # Events as JSON

An event is an object whose first field tells its kind; the fields of its data follow in a fixed
order, null where a value is absent. Readers take the fields in any order and skip others, and also
take the values alone as a list in that order.
-/

namespace Docket.Audit

open Time

def jsonId (id : Id) : Json := .str id.text

def jsonTime (t : Instant) : Json := .str t.text

def id? (v : Json) (name : String) : Option Id := do Id.ofText? (← (← v.field? name).text?)

def time? (v : Json) (name : String) : Option Instant := do
  Instant.ofText? (← (← v.field? name).text?)

def text? (v : Json) (name : String) : Option String := do (← v.field? name).text?

/-- Integer below a bound, and not below its negative, in a named field. -/
def int? (bound : Int) (v : Json) (name : String) : Option Int := do
  let n ← (← v.field? name).int?
  if -bound ≤ n ∧ n < bound then some n else none

def optional? {α : Type} (read : Json → String → Option α) (v : Json) (name : String) :
    Option (Option α) :=
  match v.present? name with
  | none => some none
  | some _ => (read v name).map some

namespace CounterChanged

def names : List String :=
  ["counter_id", "tenant_id", "document_type_id", "series", "year", "user", "timestamp"]

def fields (c : CounterChanged) : List (String × Json) :=
  names.zip [jsonId c.counter, jsonId c.tenant, jsonId c.documentType, .str c.series,
    .ofOption .int c.year, .str c.user, jsonTime c.time]

def ofFields? (v : Json) : Option CounterChanged := do
  some
    { counter := ← id? v "counter_id"
      tenant := ← id? v "tenant_id"
      documentType := ← id? v "document_type_id"
      series := ← text? v "series"
      year := ← optional? (int? int32Bound) v "year"
      user := ← text? v "user"
      time := ← time? v "timestamp" }

end CounterChanged

namespace NumberAllocated

def names : List String := ["counter_id", "tenant_id", "number", "value", "user", "timestamp"]

def fields (n : NumberAllocated) : List (String × Json) :=
  names.zip [jsonId n.counter, jsonId n.tenant, .str n.number, .int n.value, .str n.user,
    jsonTime n.time]

def ofFields? (v : Json) : Option NumberAllocated := do
  some
    { counter := ← id? v "counter_id"
      tenant := ← id? v "tenant_id"
      number := ← text? v "number"
      value := ← int? int64Bound v "value"
      user := ← text? v "user"
      time := ← time? v "timestamp" }

end NumberAllocated

namespace DocumentChanged

def names : List String := ["document_id", "tenant_id", "number", "version", "user", "timestamp"]

def fields (d : DocumentChanged) : List (String × Json) :=
  names.zip [jsonId d.document, jsonId d.tenant, .ofOption .str d.number, .int d.version,
    .str d.user, jsonTime d.time]

def ofFields? (v : Json) : Option DocumentChanged := do
  some
    { document := ← id? v "document_id"
      tenant := ← id? v "tenant_id"
      number := ← optional? text? v "number"
      version := ← int? int64Bound v "version"
      user := ← text? v "user"
      time := ← time? v "timestamp" }

end DocumentChanged

namespace StatusChanged

def names : List String :=
  ["document_id", "tenant_id", "from_status", "to_status", "reason", "user", "client_ip",
   "timestamp"]

def fields (s : StatusChanged) : List (String × Json) :=
  names.zip [jsonId s.document, jsonId s.tenant, .str s.source, .str s.target,
    .ofOption .str s.reason, .str s.user, .ofOption .str s.clientAddress, jsonTime s.time]

def ofFields? (v : Json) : Option StatusChanged := do
  some
    { document := ← id? v "document_id"
      tenant := ← id? v "tenant_id"
      source := ← text? v "from_status"
      target := ← text? v "to_status"
      reason := ← optional? text? v "reason"
      user := ← text? v "user"
      clientAddress := ← optional? text? v "client_ip"
      time := ← time? v "timestamp" }

end StatusChanged

namespace Event

def tagName : String := "event_type"

def tag : Event → String
  | counterCreated _ => "counter_created"
  | counterUpdated _ => "counter_updated"
  | counterRetired _ => "counter_retired"
  | numberAllocated _ => "number_allocated"
  | documentCreated _ => "document_created"
  | numberAssigned _ => "number_assigned"
  | statusChanged _ => "status_changed"

def fields : Event → List (String × Json)
  | counterCreated c => c.fields
  | counterUpdated c => c.fields
  | counterRetired c => c.fields
  | numberAllocated n => n.fields
  | documentCreated d => d.fields
  | numberAssigned d => d.fields
  | statusChanged s => s.fields

def toJson (e : Event) : Json := .obj ((tagName, .str e.tag) :: e.fields)

def text (e : Event) : String := e.toJson.text

/-- Event of a kind with the data in named fields. -/
def ofFields? (tag : String) (v : Json) : Option Event :=
  if tag = "counter_created" then (CounterChanged.ofFields? v).map counterCreated
  else if tag = "counter_updated" then (CounterChanged.ofFields? v).map counterUpdated
  else if tag = "counter_retired" then (CounterChanged.ofFields? v).map counterRetired
  else if tag = "number_allocated" then (NumberAllocated.ofFields? v).map numberAllocated
  else if tag = "document_created" then (DocumentChanged.ofFields? v).map documentCreated
  else if tag = "number_assigned" then (DocumentChanged.ofFields? v).map numberAssigned
  else if tag = "status_changed" then (StatusChanged.ofFields? v).map statusChanged
  else none

def names (tag : String) : List String :=
  if tag = "number_allocated" then NumberAllocated.names
  else if tag = "status_changed" then StatusChanged.names
  else if tag = "document_created" ∨ tag = "number_assigned" then DocumentChanged.names
  else CounterChanged.names

def ofJson? : Json → Option Event
  | .obj fields => do
    let tag ← text? (.obj fields) tagName
    ofFields? tag (.obj fields)
  | .arr (.str tag :: items) =>
    if items.length = (names tag).length then ofFields? tag (.obj ((names tag).zip items))
    else none
  | _ => none

def ofText? (s : String) : Option Event := (Json.ofText? s).bind ofJson?

end Event

inductive Sink where
  | record
  /-- Each event is refused; the calls it comes from do not notice. -/
  | broken
  | none
  /-- Events are written as lines. -/
  | trace
deriving DecidableEq

/-- What a sink keeps of events. -/
def Sink.keep : Sink → List Event → List Json
  | record, events => events.map Event.toJson
  | broken, _ => []
  | none, _ => []
  | trace, events => events.map fun e => .str e.text

end Docket.Audit
