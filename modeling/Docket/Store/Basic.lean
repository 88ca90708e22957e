import Docket.Store.Row
import Docket.Issuing.Allocation
import Docket.Issuing.Layout
import Docket.Time.Written

/-! # The store

Four tables, each a list of rows in the order of their insertion. Functions that write answer the
new store only where all they do succeeds.
-/

namespace Docket

open Store

structure Store where
  counters : List CounterRow := []
  documents : List DocumentRow := []
  lines : List LineRow := []
  changes : List ChangeRow := []
deriving DecidableEq

namespace Store

def lift {α : Type} : Except DecodeFailure α → Except StoreFailure α
  | .ok a => .ok a
  | .error f => .error f.toStoreFailure

def liveKeyTaken : String := "UNIQUE constraint failed: index 'ux_document_counters_live_key'"

def counterIdTaken : String := "UNIQUE constraint failed: document_counters.id"

def documentIdTaken : String := "UNIQUE constraint failed: documents.id"

def documentMissing : StoreFailure :=
  .refused "Execution" "(code: 787) FOREIGN KEY constraint failed"

def nothingUpdated : String := "None of the records are updated"

/-! ## Counters -/

def liveCounters (s : Store) (tenant : Id) : List CounterRow :=
  s.counters.filter fun r => r.tenant = tenant ∧ r.isLive

/-- Rows with another one among them, before the first whose live key is not of an earlier year. -/
def insertByKey (r : CounterRow) : List CounterRow → List CounterRow
  | [] => [r]
  | q :: rows => if r.liveKey.2 ≤ q.liveKey.2 then r :: q :: rows else q :: insertByKey r rows

/-- Live rows of a stream in the order of their live keys. -/
def streamRows (s : Store) (stream : Stream) : List CounterRow :=
  (s.counters.filter fun r => r.stream = stream ∧ r.isLive).foldr insertByKey []

def findCounter (s : Store) (tenant id : Id) : Except StoreFailure (Option Counter) :=
  match (s.liveCounters tenant).find? fun r => r.id = id with
  | none => .ok none
  | some r => lift (r.decode.map some)

def findCounterByKey (s : Store) (tenant : Id) (key : CounterKey) :
    Except StoreFailure (Option Counter) :=
  match (s.liveCounters tenant).find? fun r => r.key = key with
  | none => .ok none
  | some r => lift (r.decode.map some)

/-- Order of listed counters: by document type, by series, and by year, none before all. -/
def listedBefore (a b : CounterRow) : Bool :=
  if a.documentType ≠ b.documentType then a.documentType.le b.documentType
  else if a.series ≠ b.series then decide (a.series < b.series)
  else
    match a.year, b.year with
    | none, _ => true
    | some _, none => false
    | some y, some z => decide (y ≤ z)

def listCounters (s : Store) (tenant : Id) : Except StoreFailure (List Counter) :=
  lift (CounterRow.decodeAll ((s.liveCounters tenant).mergeSort listedBefore))

/-- Whether a live row other than that of an identifier holds a live key. -/
def isTaken (s : Store) (key : Stream × Int) (except : Id) : Bool :=
  s.counters.any fun r => decide (r.isLive ∧ r.liveKey = key ∧ r.id ≠ except)

/-- Adds a row, unless its live key or its identifier is taken. -/
def addCounter (s : Store) (r : CounterRow) : Except StoreFailure Store :=
  if r.isLive ∧ s.counters.any fun q => decide (q.isLive ∧ q.liveKey = r.liveKey) then
    .error (.duplicate liveKeyTaken)
  else if s.counters.any fun q => decide (q.id = r.id) then .error (.duplicate counterIdTaken)
  else .ok { s with counters := s.counters ++ [r] }

def changeCounter (s : Store) (id : Id) (f : CounterRow → CounterRow) : Store :=
  { s with counters := s.counters.map fun r => if r.id = id then f r else r }

/-- Adds a counter and reads it back. What was added stays even if it cannot be read. -/
def insertCounter (s : Store) (c : Counter) : Except StoreFailure Counter × Store :=
  match s.addCounter (.encode c) with
  | .error f => (.error f, s)
  | .ok s => (lift (CounterRow.encode c).decode, s)

/-- Changes the configuration of a counter, retired or not, and reads it back. What was changed
stays even if it cannot be read. -/
def updateSettings (s : Store) (c : Counter) : Except StoreFailure Counter × Store :=
  match s.counters.find? fun r => r.id = c.id with
  | none => (.error (.backend [nothingUpdated]), s)
  | some r => (lift (r.configured c).decode, s.changeCounter c.id fun r => r.configured c)

/-- Retires a live counter of a tenant; answers whether there is one. -/
def retireCounter (s : Store) (tenant id : Id) (stamp : Stamp) : Bool × Store :=
  if (s.liveCounters tenant).any fun r => decide (r.id = id) then
    (true, { s with
      counters := s.counters.map fun r =>
        if r.id = id ∧ r.tenant = tenant ∧ r.isLive then r.retire stamp else r })
  else (false, s)

/-- Makes an allocation: reads the live rows of the stream, writes what the plan says, and reads
the written row back. -/
def advance (s : Store) (a : Issuing.Allocation) : Except StoreFailure (Counter × Store) := do
  let counters ← lift (CounterRow.decodeAll (s.streamRows a.stream))
  match a.plan counters with
  | .error o => .error (.overflow o)
  | .ok (.insert c) => do
    let s ← s.addCounter (.encode c)
    let c ← lift (CounterRow.encode c).decode
    return (c, s)
  | .ok (.update c) =>
    match s.counters.find? fun r => r.id = c.id with
    | none => .error (.backend [nothingUpdated])
    | some r => do
      let r := r.advanced c
      if s.isTaken r.liveKey r.id then throw (.duplicate liveKeyTaken)
      let c' ← lift r.decode
      return (c', s.changeCounter c.id fun r => r.advanced c)

/-! ## Documents -/

def linesOf (s : Store) (id : Id) : List LineRow :=
  (s.lines.filter fun l => l.document = id).mergeSort fun a b => decide (a.position ≤ b.position)

def findRow (s : Store) (tenant id : Id) : Option DocumentRow :=
  s.documents.find? fun r => r.id = id ∧ r.tenant = tenant

def findDocument (s : Store) (tenant id : Id) : Except StoreFailure (Option Document) :=
  match s.findRow tenant id with
  | none => .ok none
  | some r => lift do
    let lines ← (s.linesOf id).mapM LineRow.decode
    return some (← r.decode lines)

def findStatus (s : Store) (tenant id : Id) : Except StoreFailure (Option Status) :=
  match s.findRow tenant id with
  | none => .ok none
  | some r => lift ((readStatus r.status).map some)

/-- Order of listed changes: by their times as they are stored, and of changes of one time by
version, the greater first. Stored times are texts, so the order is that of time only for years of
four digits without a sign. -/
def changedAfter (a b : ChangeRow) : Bool :=
  if a.changed.time ≠ b.changed.time then
    decide (b.changed.time.storedText ≤ a.changed.time.storedText)
  else decide (b.version ≤ a.version)

/-- Rows of the changes of a tenant's document in their order; of changes that the order does not
tell apart, the one added last comes first. -/
def changesOf (s : Store) (tenant id : Id) : List ChangeRow :=
  (s.changes.filter fun r => r.document = id ∧ r.tenant = tenant).reverse.mergeSort changedAfter

def listChanges (s : Store) (tenant id : Id) : Except StoreFailure (List StatusChange) :=
  lift ((s.changesOf tenant id).mapM ChangeRow.decode)

def insertDocument (s : Store) (d : Document) : Except StoreFailure (Document × Store) :=
  if s.documents.any fun r => decide (r.id = d.id) then .error (.duplicate documentIdTaken)
  else .ok (d, { s with
    documents := s.documents ++ [.encode d]
    lines := s.lines ++ d.lines.map (LineRow.encode d.id) })

/-- Changes the row of a document that has an expected version. -/
def changeDocument (s : Store) (d : Document) (expected : Int)
    (f : DocumentRow → DocumentRow) : Except StoreFailure Store :=
  let matched (r : DocumentRow) : Bool :=
    decide (r.id = d.id ∧ r.tenant = d.tenant ∧ r.version = expected)
  if s.documents.any matched then
    .ok { s with documents := s.documents.map fun r => if matched r then f r else r }
  else .error (.stale d.id)

def assignNumber (s : Store) (d : Document) (expected : Int) (a : Issuing.Allocation) :
    Except StoreFailure ((Document × Number) × Store) := do
  let (c, s) ← s.advance a
  let number := c.number
  let s ← s.changeDocument d expected fun r => r.numbered d number.formatted
  return (({ d with number := some number.formatted }, number), s)

def applyChange (s : Store) (d : Document) (expected : Int) (c : StatusChange) :
    Except StoreFailure (Document × Store) := do
  let s ← s.changeDocument d expected fun r => r.moved d
  if s.documents.any fun r => decide (r.id = c.document) then
    return (d, { s with changes := s.changes ++ [.encode d.tenant c] })
  else throw documentMissing

end Store

end Docket
