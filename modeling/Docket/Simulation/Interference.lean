import Docket.Service.Request
import Docket.Store.Database

/-! # Calls under interference

A call is run on a database while others interfere: its caller gives up, the database fails, or a
rival gets in just before a write. What interferes is said beforehand and used up as it happens. A
call that writes also reads the clock, and stops there if the clock cannot be read.
-/

namespace Docket.Simulation

open Time

structure Interference where
  /-- The caller gives up as the first write begins. -/
  cancelsAtWrite : Bool := false
  /-- The first write fails with these causes. -/
  failure : Option (List String) := none
  /-- So many allocations lose against a rival's first use of the stream. -/
  losses : Nat := 0
  /-- A rival changes the document before the first guarded write. -/
  stale : Bool := false
  /-- Looking up a key finds nothing. -/
  blind : Bool := false
  /-- A rival retires the counter before it is written. -/
  vanishes : Bool := false

/-- What a call works on: a database, what still interferes with the call, when it happens, and
the identifier of a counter that a rival may add. -/
structure Scene where
  database : Database
  interference : Interference
  now : Instant
  rival : Id
  /-- The words with which the call has stopped because it could not read the clock. -/
  stopped : Option String := none

namespace Scene

def isWrite : Step → Bool
  | .insertCounter _ => true
  | .updateSettings _ => true
  | .retireCounter _ _ _ => true
  | .allocate _ => true
  | .insertDocument _ => true
  | .assignNumber _ _ _ => true
  | .applyChange _ _ _ => true
  | _ => false

def modifyStore (scene : Scene) (f : Store → Store) : Scene :=
  { scene with database := { scene.database with store := f scene.database.store } }

def retire (scene : Scene) (tenant id : Id) : Scene :=
  if scene.interference.vanishes then
    scene.modifyStore fun s => (s.retireCounter tenant id ⟨scene.now, "rival"⟩).2
  else scene

/-- The rival changes a document that is about to be written. -/
def outdate (scene : Scene) (id : Id) (expected : Int) : Scene :=
  if scene.interference.stale then
    let scene := { scene with interference := { scene.interference with stale := false } }
    scene.modifyStore fun s =>
      { s with documents := s.documents.map fun r =>
          if r.id = id then { r with version := expected + 1 } else r }
  else scene

/-- The rival is first to use a stream, unless its key is there already. -/
def occupy (scene : Scene) (a : Issuing.Allocation) : Scene :=
  let row := Store.CounterRow.encode { a with fresh := scene.rival }.firstCounter
  let scene :=
    { scene with
      interference := { scene.interference with losses := scene.interference.losses - 1 } }
  scene.modifyStore fun s =>
    match s.addCounter row with
    | .ok s => s
    | .error _ => s

/-- What the rival does right before a write. -/
def intrude (scene : Scene) : Step → Scene
  | .updateSettings c => scene.retire c.tenant c.id
  | .retireCounter tenant id _ => scene.retire tenant id
  | .assignNumber d expected _ => scene.outdate d.id expected
  | .applyChange d expected _ => scene.outdate d.id expected
  | _ => scene

/-- The allocation that a write begins with. -/
def allocation? : Step → Option Issuing.Allocation
  | .allocate a => some a
  | .assignNumber _ _ a => some a
  | _ => none

/-- Carries out a request without interference. -/
def proceed (scene : Scene) (step : Step) : step.Reply × Scene :=
  let (reply, database) := scene.database.perform step
  (reply, { scene with database := database })

/-- Whether a call reads the clock itself for a write; a retirement does so as it is carried out. -/
def readsClock : Step → Bool
  | .retireCounter _ _ _ => false
  | _ => true

/-- A write that is not made because the call stops. -/
def stop (scene : Scene) (step : Step) (words : String) : step.Reply × Scene :=
  (.error .cancelled, { scene with stopped := some words })

/-- Carries out a write once the clock has been read and the database is there. -/
def reach (scene : Scene) (step : Step) : step.Reply × Scene :=
  let scene := scene.intrude step
  match allocation? step with
  | some a =>
    if 0 < scene.interference.losses then
      (.error (.duplicate Store.liveKeyTaken), scene.occupy a)
    else scene.proceed step
  | none => scene.proceed step

/-- Carries out a write amid interference. -/
def write (scene : Scene) (step : Step) : step.Reply × Scene :=
  match scene.now.read Service.clockWords, readsClock step with
  | .error words, true => scene.stop step words
  | reading, _ =>
    if scene.interference.cancelsAtWrite then (.error .cancelled, scene)
    else
      match scene.interference.failure, reading with
      | some causes, _ =>
        (.error (.backend causes),
          { scene with interference := { scene.interference with failure := none } })
      | none, .error words => scene.stop step words
      | none, .ok _ => scene.reach step

/-- Carries out a request amid interference. -/
def handle (scene : Scene) : (step : Step) → step.Reply × Scene
  | .findCounterByKey tenant key =>
    if scene.interference.blind then (.ok none, scene)
    else scene.proceed (.findCounterByKey tenant key)
  | step => if isWrite step then scene.write step else scene.proceed step

end Scene

inductive Stop where
  | failure (f : Failure)
  /-- The clock could not be read. -/
  | clock (words : String)

namespace Stop

def message : Stop → String
  | failure (.error e) => e.message
  | failure (.overflow o) => o.message
  | clock words => words

def isPanic : Stop → Bool
  | failure (.error _) => false
  | failure (.overflow _) => true
  | clock _ => true

end Stop

/-- A call with the caller that the service sees: a document's creation reads the clock before it
looks whether the caller has given up. -/
def seenCall (call : Call) (request : Request) : Call :=
  match request, call.now.read Service.clockWords with
  | .createDocument _, .error _ => { call with caller := { call.caller with cancelled := false } }
  | _, _ => call

def runCall (service : Service) (call : Call) (request : Request) (scene : Scene) :
    Except Stop (Outcome request.Answer) × Scene :=
  let (reply, scene) :=
    (service.serve (seenCall call request) request).run.interpret Scene.handle scene
  match scene.stopped with
  | some words => (.error (.clock words), { scene with stopped := none })
  | none => (reply.mapError .failure, scene)

/-- What a series of calls for the numbers of a stream answered. -/
structure Burst where
  numbers : List Number := []
  stops : List Stop := []
  events : List Audit.Event := []

/-- The first of the calls that was broken off. -/
def Burst.panic? (b : Burst) : Option Stop := b.stops.find? Stop.isPanic

/-- Calls for the numbers of a stream, one after another, each with an identifier of its own. -/
def burst (service : Service) (call : Call) (documentType : Id) (series : String) :
    List Id → Database → Burst × Database
  | [], db => ({}, db)
  | fresh :: rest, db =>
    let scene : Scene := { database := db, interference := {}, now := call.now, rival := fresh }
    let (reply, scene) :=
      runCall service { call with fresh := fresh } (.generateNumber documentType series) scene
    let (others, db) := burst service call documentType series rest scene.database
    match reply with
    | .ok outcome =>
      ({ others with
        numbers := outcome.value :: others.numbers
        events := outcome.events ++ others.events }, db)
    | .error stop => ({ others with stops := stop :: others.stops }, db)

end Docket.Simulation
