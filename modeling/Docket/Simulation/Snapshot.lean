import Docket.Store.Database

/-! # Snapshots

All that a database holds, in a fixed order: counters with the retired ones, and documents with
their lines and changes.
-/

namespace Docket.Simulation

open Store

structure DocumentSnapshot where
  row : DocumentRow
  lines : List Line
  changes : List ChangeRow

structure Snapshot where
  counters : List CounterRow
  documents : List DocumentSnapshot

namespace Snapshot

def firstOf (orders : List Ordering) : Ordering := orders.foldr Ordering.then .eq

def compareIds (a b : Id) : Ordering := compare a.value b.value

def compareOptions {α : Type} (order : α → α → Ordering) : Option α → Option α → Ordering
  | none, none => .eq
  | none, some _ => .lt
  | some _, none => .gt
  | some a, some b => order a b

def compareTimes (a b : Time.Instant) : Ordering :=
  firstOf [compare a.second b.second, compare a.nano b.nano]

/-- Order of counters, given an order of identifiers for those that are otherwise alike. -/
def compareCounters (order : Id → Id → Ordering) (a b : CounterRow) : Ordering :=
  firstOf
    [compareIds a.tenant b.tenant, compareIds a.documentType b.documentType,
     compare a.series b.series, compareOptions compare a.year b.year,
     compareOptions compareTimes a.retired b.retired, compare a.value b.value, order a.id b.id]

def compareChanges (a b : ChangeRow) : Ordering :=
  firstOf [compare a.version b.version, compare a.target b.target]

def sortBy {α : Type} (order : α → α → Ordering) (as : List α) : List α :=
  as.mergeSort fun a b => order a b != .gt

def ofDocument (s : Store) (r : DocumentRow) : Except DecodeFailure DocumentSnapshot := do
  return {
    row := r
    lines := ← (s.linesOf r.id).mapM LineRow.decode
    changes := sortBy compareChanges (s.changes.filter fun c => c.document = r.id) }

def of? (order : Id → Id → Ordering) (db : Database) : Option Snapshot :=
  if db.applied < Migration.all.length || db.store.counters.any (!·.yearFits) then none
  else
    let documents := sortBy (fun a b => order a.id b.id) db.store.documents
    match documents.mapM (ofDocument db.store) with
    | .error _ => none
    | .ok documents => some ⟨sortBy (compareCounters order) db.store.counters, documents⟩

end Snapshot

end Docket.Simulation
