import Mathlib.Tactic.SplitIfs
import Docket.Config.Basic
import Docket.Service.Request
import Docket.Simulation.Interference

/-! # Programs of calls

A program makes a request, is told the reply and goes on from there. What is said of a program is
said of its requests and its answer, given what it has been told before.
-/

namespace Docket

open Store Issuing

variable {α β : Type}

theorem eq_of_succ? {m n : Int} (h : succ? m = .ok n) : n = m + 1 := by
  unfold succ? at h
  split at h
  · exact (Except.ok.inj h).symm
  · cases h

structure Response where
  step : Step
  reply : step.Reply

namespace Program

/-- What a program has been told accounts for each of its requests, and for the answer at its
end. -/
def Follows (asks : List Response → Step → Prop) (ends : List Response → α → Prop) :
    Program α → List Response → Prop
  | done a, told => ends told a
  | request step next, told =>
    asks told step ∧ ∀ reply, (next reply).Follows asks ends (told ++ [⟨step, reply⟩])

theorem bind_assoc {γ : Type} (p : Program α) (f : α → Program β) (g : β → Program γ) :
    (p.bind f).bind g = p.bind fun a => (f a).bind g := by
  induction p with
  | done a => rfl
  | request step next ih => exact congrArg (request step) (funext ih)

end Program

namespace Action

theorem run_bind (x : Action α) (f : α → Action β) :
    (x >>= f).run = x.run.bind fun
      | .ok a => (f a).run
      | .error e => .done (.error e) := by
  change Program.bind _ _ = _
  congr 1
  funext reply
  cases reply <;> rfl

theorem run_ask (step : Step) :
    (ask step).run = .request step fun
      | .ok a => .done (.ok a)
      | .error f => .done (.error f.toFailure) :=
  rfl

theorem run_ask_bind (step : Step) (f : step.Result → Action β) :
    (ask step >>= f).run = .request step fun
      | .ok a => (f a).run
      | .error e => .done (.error e.toFailure) := by
  rw [run_bind, run_ask]
  change Program.request _ _ = _
  congr 1
  funext reply
  cases reply <;> rfl

theorem bind_assoc {γ : Type} (x : Action α) (f : α → Action β) (g : β → Action γ) :
    x >>= f >>= g = x >>= fun a => f a >>= g := by
  change (x >>= f >>= g).run = (x >>= fun a => f a >>= g).run
  rw [run_bind, run_bind, run_bind, Program.bind_assoc]
  congr 1
  funext reply
  cases reply with
  | ok a => exact (run_bind (f a) g).symm
  | error e => rfl

end Action

namespace Service

variable {service : Service} {call : Call}

theorem run_attempt (service : Service) (step : Step) :
    (service.attempt step).run
      = (retrying (Program.ask step) (service.attempts - 1)).bind fun
        | .ok a => .done (.ok a)
        | .error f => .done (.error f.toFailure) := by
  change Program.bind _ _ = _
  congr 1

theorem run_attempt_bind (service : Service) (step : Step) (f : step.Result → Action β) :
    (service.attempt step >>= f).run
      = (retrying (Program.ask step) (service.attempts - 1)).bind fun
        | .ok a => (f a).run
        | .error e => .done (.error e.toFailure) := by
  rw [Action.run_bind, run_attempt, Program.bind_assoc]
  congr 1
  funext reply
  cases reply <;> rfl

theorem retrying_bind_succ (step : Step) (n : Nat) (k : step.Reply → Program β) :
    (retrying (Program.ask step) (n + 1)).bind k = .request step fun
      | .error (.duplicate _) => (retrying (Program.ask step) n).bind k
      | reply => k reply := by
  change Program.request _ _ = _
  congr 1
  funext reply
  rcases reply with (_ | _) | _ <;> rfl

/-- However often it may be tried, a request is made once and goes on from a reply that is not a
failure. -/
theorem exists_retrying_bind (step : Step) (n : Nat) (k : step.Reply → Program β) :
    ∃ next, (retrying (Program.ask step) n).bind k = .request step next ∧
      ∀ a, next (.ok a) = k (.ok a) := by
  cases n with
  | zero => exact ⟨k, rfl, fun _ => rfl⟩
  | succ n => exact ⟨_, retrying_bind_succ step n k, fun _ => rfl⟩

theorem run_generateNumber {tenant documentType : Id} {series : String}
    (hscope : call.caller.tenant = some tenant) (hstart : call.caller.cancelled = false)
    (htype : checkDocumentType documentType = .ok ()) :
    (service.generateNumber call documentType series).run
      = .request (.acquire ⟨tenant, documentType, series⟩) fun
        | .ok _ =>
          (retrying (Program.ask (.allocate
            (service.allocation call ⟨tenant, documentType, series⟩))) (service.attempts - 1)).bind
          fun
            | .ok c => .done (.ok ⟨Counter.number c,
              [.numberAllocated (.of tenant (Counter.number c) (service.stamp call))]⟩)
            | .error f => .done (.error f.toFailure)
        | .error f => .done (.error f.toFailure) := by
  have hscope : scope call = pure tenant := by rw [scope, hscope]
  have hstart : start call = pure () := by rw [start, hstart]; rfl
  have hcheck : Action.check (checkDocumentType documentType) = pure () := by rw [htype]; rfl
  unfold generateNumber
  rw [hscope, hstart, hcheck]
  refine (Action.run_ask_bind (.acquire _) _).trans ?_
  congr 1
  funext reply
  cases reply with
  | ok =>
    refine (run_attempt_bind service (.allocate _) _).trans (congrArg _ (funext fun reply => ?_))
    cases reply <;> rfl
  | error f => rfl

end Service

/-- A service that adds counters with settings in range and has a name for those without one. -/
structure Service.Valid (service : Service) : Prop where
  padding : 1 ≤ service.defaults.padding ∧ service.defaults.padding ≤ 10
  systemUser : Text.isBlank service.systemUser = false

theorem Service.valid_of_validate {config : Config} (h : config.validate = .ok ()) :
    config.service.Valid := by
  unfold Config.validate at h
  split_ifs at h with hpadding hattempts hblank
  exact ⟨hpadding, Bool.eq_false_iff.mpr hblank⟩

namespace Request

/-- What a call may ask of the store for a request. -/
def Asks (service : Service) (call : Call) : Request → Step → Prop
  | generateNumber _ _, .acquire _ => True
  | generateNumber _ _, .allocate a => ∃ stream, a = service.allocation call stream
  | createCounter new, .findCounterByKey _ key => key = new.key
  | createCounter new, .insertCounter c => ∃ tenant, c = service.newCounter call tenant new
  | updateCounter _ _, .findCounter _ _ => True
  | updateCounter _ settings, .updateSettings c => c.settings = settings
  | deleteCounter _, .findCounter _ _ => True
  | deleteCounter counter, .retireCounter _ id _ => id = counter
  | getCounter _, .findCounterByKey _ _ => True
  | listCounters, .listCounters _ => True
  | createDocument new, .insertDocument d => ∃ tenant, d = service.newDocument call tenant new
  | getDocument _, .findDocument _ _ => True
  | assignNumber _ _, .findDocument _ _ => True
  | assignNumber _ _, .acquire _ => True
  | assignNumber _ _, .assignNumber d expected a =>
    d.version = expected + 1 ∧ ∃ stream, a = service.allocation call stream
  | changeStatus _ _ _, .findDocument _ _ => True
  | changeStatus _ _ _, .applyChange d expected c => d.version = expected + 1 ∧ c.document = d.id
  | availableTransitions _, .findStatus _ _ => True
  | statusHistory _, .listChanges _ _ => True
  | validateTransition _ _, .findDocument _ _ => True
  | _, _ => False

section Allocation

variable {service : Service} {call : Call} {request : Request} {step : Step}
  {a : Issuing.Allocation}

theorem allocation_of_asks (h : Asks service call request step)
    (ha : Simulation.Scene.allocation? step = some a) :
    ∃ stream, a = service.allocation call stream := by
  cases step with
  | allocate b =>
    obtain rfl := Option.some.inj ha
    cases request with
    | generateNumber => exact h
    | _ => exact h.elim
  | assignNumber d expected b =>
    obtain rfl := Option.some.inj ha
    cases request with
    | assignNumber => exact h.2
    | _ => exact h.elim
  | _ => cases ha

theorem year_of_asks (h : Asks service call request step)
    (ha : Simulation.Scene.allocation? step = some a) : a.year = call.now.year := by
  obtain ⟨stream, rfl⟩ := allocation_of_asks h ha
  rfl

end Allocation

end Request

end Docket
