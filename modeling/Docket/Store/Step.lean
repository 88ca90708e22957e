import Docket.Store.Basic

/-! # Requests to the store

Operations work through requests, each of which the store carries out alone and at once. A program
is a value, or a request and what follows its answer; how requests are carried out is left to
whoever runs it.
-/

namespace Docket

open Store Issuing

inductive Step where
  /-- Wait until no other call is allocating in the stream. -/
  | acquire (stream : Stream)
  | findCounter (tenant id : Id)
  | findCounterByKey (tenant : Id) (key : CounterKey)
  | listCounters (tenant : Id)
  | insertCounter (c : Counter)
  | updateSettings (c : Counter)
  | retireCounter (tenant id : Id) (stamp : Stamp)
  | allocate (a : Allocation)
  | findDocument (tenant id : Id)
  | findStatus (tenant id : Id)
  | listChanges (tenant id : Id)
  | insertDocument (d : Document)
  | assignNumber (d : Document) (expected : Int) (a : Allocation)
  | applyChange (d : Document) (expected : Int) (c : StatusChange)

namespace Step

/-- What a request answers where it succeeds. -/
def Result : Step → Type
  | acquire _ => Unit
  | findCounter _ _ => Option Counter
  | findCounterByKey _ _ => Option Counter
  | listCounters _ => List Counter
  | insertCounter _ => Counter
  | updateSettings _ => Counter
  | retireCounter _ _ _ => Bool
  | allocate _ => Counter
  | findDocument _ _ => Option Document
  | findStatus _ _ => Option Status
  | listChanges _ _ => List StatusChange
  | insertDocument _ => Document
  | assignNumber _ _ _ => Document × Number
  | applyChange _ _ _ => Document

abbrev Reply (step : Step) := Except StoreFailure step.Result

end Step

namespace Store

/-- A write that leaves the store as it was where it fails. -/
def commit {α : Type} (s : Store) :
    Except StoreFailure (α × Store) → Except StoreFailure α × Store
  | .ok (a, s') => (.ok a, s')
  | .error f => (.error f, s)

def perform (s : Store) : (step : Step) → step.Reply × Store
  | .acquire _ => (.ok (), s)
  | .findCounter tenant id => (s.findCounter tenant id, s)
  | .findCounterByKey tenant key => (s.findCounterByKey tenant key, s)
  | .listCounters tenant => (s.listCounters tenant, s)
  | .insertCounter c => s.insertCounter c
  | .updateSettings c => s.updateSettings c
  | .retireCounter tenant id stamp =>
    let (found, s) := s.retireCounter tenant id stamp
    (.ok found, s)
  | .allocate a => s.commit (s.advance a)
  | .findDocument tenant id => (s.findDocument tenant id, s)
  | .findStatus tenant id => (s.findStatus tenant id, s)
  | .listChanges tenant id => (s.listChanges tenant id, s)
  | .insertDocument d => s.commit (s.insertDocument d)
  | .assignNumber d expected a => s.commit (s.assignNumber d expected a)
  | .applyChange d expected c => s.commit (s.applyChange d expected c)

end Store

inductive Program (α : Type) where
  | done (a : α)
  | request (step : Step) (next : step.Reply → Program α)

namespace Program

variable {α β σ : Type}

protected def bind (p : Program α) (f : α → Program β) : Program β :=
  match p with
  | done a => f a
  | request step next => request step fun reply => (next reply).bind f

instance : Monad Program where
  pure := done
  bind := Program.bind

/-- Runs a program with a way to carry out requests. -/
def interpret (handle : σ → (step : Step) → step.Reply × σ) : Program α → σ → α × σ
  | done a, s => (a, s)
  | request step next, s =>
    let (reply, s) := handle s step
    (next reply).interpret handle s

def run (p : Program α) (s : Store) : α × Store := p.interpret Store.perform s

@[simp] theorem run_done (a : α) (s : Store) : (done a).run s = (a, s) := rfl

@[simp] theorem run_request (step : Step) (next : step.Reply → Program α) (s : Store) :
    (request step next).run s = (next (s.perform step).1).run (s.perform step).2 := rfl

@[simp] theorem interpret_bind (handle : σ → (step : Step) → step.Reply × σ) (p : Program α)
    (f : α → Program β) (s : σ) :
    (p.bind f).interpret handle s
      = (f (p.interpret handle s).1).interpret handle (p.interpret handle s).2 := by
  induction p generalizing s with
  | done a => rfl
  | request step next ih => exact ih _ _

@[simp] theorem run_bind (p : Program α) (f : α → Program β) (s : Store) :
    (p.bind f).run s = (f (p.run s).1).run (p.run s).2 :=
  interpret_bind _ _ _ _

def ask (step : Step) : Program step.Reply := request step done

end Program

/-- A program that may fail. -/
abbrev Action := ExceptT Failure Program

namespace Action

variable {α : Type}

def ask (step : Step) : Action step.Result :=
  ExceptT.mk do
    match ← Program.ask step with
    | .ok a => return .ok a
    | .error f => return .error f.toFailure

def fail (e : DocumentsError) : Action α := throw (.error e)

def check : Except Violation Unit → Action Unit
  | .ok () => pure ()
  | .error v => fail v.error

/-- A computation that may leave its range. -/
def compute : Except Overflow α → Action α
  | .ok a => pure a
  | .error o => throw (.overflow o)

/-- What is found, or the failure to find it. -/
def found (resource id : String) : Option α → Action α
  | some a => pure a
  | none => fail (.notFound resource id)

end Action

end Docket
