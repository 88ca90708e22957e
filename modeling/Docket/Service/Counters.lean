import Docket.Issuing.Validation
import Docket.Service.Call

/-! # Operations on counters

Numbers are handed out one call at a time in a stream; counters are configured, retired and looked
up by the tenant they belong to.
-/

namespace Docket.Service

open Issuing

/-- The allocation that a call makes in a stream. -/
def allocation (service : Service) (call : Call) (stream : Stream) : Allocation :=
  { stream := stream
    year := call.now.year
    stamp := service.stamp call
    defaults := service.defaults
    fresh := call.fresh }

def generateNumber (service : Service) (call : Call) (documentType : Id) (series : String) :
    Action (Outcome Number) := do
  let tenant ← scope call
  Action.check (checkDocumentType documentType)
  start call
  let stream : Stream := ⟨tenant, documentType, series⟩
  Action.ask (.acquire stream)
  let counter : Counter ← service.attempt (.allocate (service.allocation call stream))
  let number := counter.number
  return ⟨number, [.numberAllocated (.of tenant number (service.stamp call))]⟩

def newCounter (service : Service) (call : Call) (tenant : Id) (new : NewCounter) : Counter :=
  { id := call.fresh
    tenant := tenant
    documentType := new.key.documentType
    series := new.key.series
    year := new.key.year
    value := new.start
    settings := new.settings
    created := service.stamp call
    updated := service.stamp call
    retired := none }

/-- A failure to add a counter; a key taken meanwhile is reported like one found at first. -/
def insertFailure (key : CounterKey) : StoreFailure → Failure
  | .duplicate _ => .error (Clash.counterExists key).error
  | f => f.toFailure

def createCounter (service : Service) (call : Call) (new : NewCounter) :
    Action (Outcome Counter) := do
  let tenant ← scope call
  Action.check (checkNewCounter new)
  start call
  let found : Option Counter ← Action.ask (.findCounterByKey tenant new.key)
  if found.isSome then
    Action.fail (Clash.counterExists new.key).error
  let reply ← liftM (Program.ask (.insertCounter (service.newCounter call tenant new)))
  match (reply : Except StoreFailure Counter) with
  | .error f => throw (insertFailure new.key f)
  | .ok counter => return ⟨counter, [.counterCreated (.of counter (service.stamp call))]⟩

def liveCounter (tenant id : Id) : Action Counter := do
  Action.found "counter" id.text (← Action.ask (.findCounter tenant id))

/-- Replaces the configuration of a counter; its key and value stay. -/
def updateCounter (service : Service) (call : Call) (id : Id) (settings : CounterSettings) :
    Action (Outcome Counter) := do
  let tenant ← scope call
  Action.check (checkSettings settings)
  start call
  let counter ← liveCounter tenant id
  let changed := { counter with settings := settings, updated := service.stamp call }
  let updated : Counter ← Action.ask (.updateSettings changed)
  return ⟨updated, [.counterUpdated (.of updated (service.stamp call))]⟩

def deleteCounter (service : Service) (call : Call) (id : Id) : Action (Outcome Unit) := do
  let tenant ← scope call
  start call
  let counter ← liveCounter tenant id
  let retired : Bool ← Action.ask (.retireCounter tenant id (service.stamp call))
  if retired then
    return ⟨(), [.counterRetired (.of counter (service.stamp call))]⟩
  else Action.fail (.notFound "counter" id.text)

def getCounter (call : Call) (key : CounterKey) : Action (Outcome Counter) := do
  let tenant ← scope call
  start call
  let counter ← Action.found "counter" key.text (← Action.ask (.findCounterByKey tenant key))
  return ⟨counter, []⟩

def listCounters (call : Call) : Action (Outcome (List Counter)) := do
  let tenant ← scope call
  start call
  let counters : List Counter ← Action.ask (.listCounters tenant)
  return ⟨counters, []⟩

end Docket.Service
