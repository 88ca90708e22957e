import Docket.Audit.Event
import Docket.Store.Step
import Docket.Text.Basic

/-! # Calls

What every operation of the service has in common: who calls and when, and how the work of a call
begins, is tried again and ends.
-/

namespace Docket

open Time

/-- On whose behalf an operation runs. -/
structure Caller where
  tenant : Option Id := none
  user : Option String := none
  clientAddress : Option String := none
  userAgent : Option String := none
  /-- Whether the caller had given up before the operation began. -/
  cancelled : Bool := false
deriving DecidableEq

namespace Caller

/-- The caller's user, or another name if the caller gave none that can be seen. -/
def actingUser (c : Caller) (fallback : String) : String :=
  match c.user with
  | some user => if Text.isBlank user then fallback else user
  | none => fallback

end Caller

/-- The settings that operations work with. -/
structure Service where
  defaults : CounterDefaults := {}
  /-- How often an allocation is tried at most. -/
  attempts : Nat := 3
  systemUser : String := "System"
deriving DecidableEq

/-- The circumstances of a call: who calls, what the clock is read at, and an identifier for what
may be created. -/
structure Call where
  caller : Caller
  now : Instant
  fresh : Id

/-- What a call that succeeds answers and reports. -/
structure Outcome (α : Type) where
  value : α
  events : List Audit.Event := []

namespace Service

variable {α : Type}

/-- How a call says that it cannot read the clock. -/
def clockWords : String := "system time before Unix epoch"

def stamp (service : Service) (call : Call) : Stamp :=
  ⟨call.now, call.caller.actingUser service.systemUser⟩

def scope (call : Call) : Action Id :=
  match call.caller.tenant with
  | some tenant => pure tenant
  | none => Action.fail .missingScope

/-- Beginning of the work on the store, unless the caller has given up. -/
def start (call : Call) : Action Unit :=
  if call.caller.cancelled then Action.fail .cancelled else pure ()

/-- Makes further attempts as long as one fails because a key was taken meanwhile. -/
def retrying (attempt : Program (Except StoreFailure α)) :
    Nat → Program (Except StoreFailure α)
  | 0 => attempt
  | further + 1 => do
    match ← attempt with
    | .error (.duplicate _) => retrying attempt further
    | reply => return reply

/-- A request that is tried as often as the service is set to, at least once. -/
def attempt (service : Service) (step : Step) : Action step.Result :=
  ExceptT.mk do
    match ← retrying (Program.ask step) (service.attempts - 1) with
    | .ok a => return .ok a
    | .error f => return .error f.toFailure

end Service

end Docket
