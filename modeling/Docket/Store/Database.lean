import Docket.Store.Step

/-! # Tables and migrations

The tables of the store are made by migrations, in order, and undone in the reverse order with all
they hold. When a migration was applied is recorded, which takes a clock that can be read. A request
that comes to a table that is not there fails.
-/

namespace Docket

inductive Table where
  | counters
  | documents
  | lines
  | changes
deriving DecidableEq

namespace Table

def name : Table → String
  | counters => "document_counters"
  | documents => "documents"
  | lines => "document_rows"
  | changes => "document_status_history"

/-- How many migrations it takes until a table is there. -/
def migrations : Table → Nat
  | counters => 1
  | documents => 2
  | lines => 2
  | changes => 3

end Table

structure Migration where
  name : String
  tables : List Table
  indexes : List String

namespace Migration

def all : List Migration :=
  [⟨"m20250301_000001_create_document_counters", [.counters],
      ["idx_document_counters_stream", "ux_document_counters_live_key"]⟩,
   ⟨"m20250301_000002_create_documents", [.documents, .lines],
      ["idx_documents_tenant", "idx_document_rows_document"]⟩,
   ⟨"m20250301_000003_create_status_history", [.changes], ["idx_status_history_document"]⟩]

def objects (m : Migration) : List String := m.tables.map Table.name ++ m.indexes

end Migration

/-- A store and the number of migrations that were applied to it. -/
structure Database where
  applied : Nat := Migration.all.length
  store : Store := {}

namespace Database

def migrations (db : Database) : List Migration := Migration.all.take db.applied

def schema (db : Database) : List String :=
  (db.migrations.flatMap Migration.objects).mergeSort fun a b => decide (a ≤ b)

def has (db : Database) (t : Table) : Bool := decide (t.migrations ≤ db.applied)

/-- How the record of a migration says that it cannot read the clock. -/
def clockWords : String := "SystemTime before UNIX EPOCH!"

def migrate (db : Database) (clock : Time.Instant) : Except String Database :=
  if db.applied < Migration.all.length then
    (clock.read clockWords).map fun _ => { db with applied := Migration.all.length }
  else .ok db

def undo (db : Database) (count : Nat) : Database :=
  let left : Database := { db with applied := db.applied - count }
  { left with
    store :=
      { counters := if left.has .counters then db.store.counters else []
        documents := if left.has .documents then db.store.documents else []
        lines := if left.has .lines then db.store.lines else []
        changes := if left.has .changes then db.store.changes else [] } }

def missing (statement : String) (t : Table) : StoreFailure :=
  .refused statement ("(code: 1) no such table: " ++ t.name)

/-- The table that a request comes to first, and the kind of statement it does so with. -/
def firstTable : Step → Option (Table × String)
  | .acquire _ => none
  | .findCounter _ _ => some (.counters, "Query")
  | .findCounterByKey _ _ => some (.counters, "Query")
  | .listCounters _ => some (.counters, "Query")
  | .insertCounter _ => some (.counters, "Execution")
  | .updateSettings _ => some (.counters, "Execution")
  | .retireCounter _ _ _ => some (.counters, "Execution")
  | .allocate _ => some (.counters, "Query")
  | .findDocument _ _ => some (.documents, "Query")
  | .findStatus _ _ => some (.documents, "Query")
  | .listChanges _ _ => some (.changes, "Query")
  | .insertDocument _ => some (.documents, "Execution")
  | .assignNumber _ _ _ => some (.counters, "Query")
  | .applyChange _ _ _ => some (.documents, "Execution")

/-- The failure of a request that came to another missing table later on, given what it answers on
a store where that table is empty. -/
def laterFailure (db : Database) : (step : Step) → step.Reply → Option StoreFailure
  | .assignNumber _ _ _, .error (.stale _) =>
    if db.has .documents then none else some (missing "Execution" .documents)
  | .applyChange _ _ _, .error (.stale _) => none
  | .applyChange _ _ _, _ => if db.has .changes then none else some (missing "Execution" .changes)
  | _, _ => none

/-- Carries out a request on the tables that are there. -/
def perform (db : Database) (step : Step) : step.Reply × Database :=
  let stops := match firstTable step with
    | some (t, statement) => if db.has t then none else some (missing statement t)
    | none => none
  match stops with
  | some failure => (.error failure, db)
  | none =>
    let (reply, store) := db.store.perform step
    match db.laterFailure step reply with
    | some failure => (.error failure, db)
    | none => (reply, { db with store := store })

/-! ## Changes from outside -/

/-- A column to overwrite, with its new value; identifiers of changes are those of documents. -/
inductive Edit where
  | padding (counter : Id) (n : Int)
  | value (counter : Id) (n : Int)
  | year (counter : Id) (year : Option Int)
  | version (document : Id) (n : Int)
  | status (document : Id) (text : String)
  | number (document : Id) (text : Option String)
  | source (document : Id) (text : String)
  | target (document : Id) (text : String)

/-- Overwrites a column in the rows it is asked for, and counts them. -/
def edit (db : Database) (e : Edit) : Nat × Database :=
  let s := db.store
  let counters (id : Id) (f : Store.CounterRow → Store.CounterRow) : Nat × Database :=
    (s.counters.countP (fun r => r.id = id), { db with store := s.changeCounter id f })
  let documents (id : Id) (f : Store.DocumentRow → Store.DocumentRow) : Nat × Database :=
    (s.documents.countP (fun r => r.id = id),
      { db with store := { s with
        documents := s.documents.map fun r => if r.id = id then f r else r } })
  let changes (id : Id) (f : Store.ChangeRow → Store.ChangeRow) : Nat × Database :=
    (s.changes.countP (fun r => r.document = id),
      { db with store := { s with
        changes := s.changes.map fun r => if r.document = id then f r else r } })
  match e with
  | .padding id n => counters id fun r => { r with padding := n }
  | .value id n => counters id fun r => { r with value := n }
  | .year id y => counters id fun r => { r with year := y }
  | .version id n => documents id fun r => { r with version := n }
  | .status id t => documents id fun r => { r with status := t }
  | .number id t => documents id fun r => { r with number := t }
  | .source id t => changes id fun r => { r with source := t }
  | .target id t => changes id fun r => { r with target := t }

end Database

end Docket
