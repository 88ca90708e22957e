import Docket.Proofs.Schedule

/-! # The conduct of calls

What a call may do next depends on its request and on what it has been told. This is said once for
all requests: which request to the store a call makes, and what it ends with. All that is to be
known of the programs of calls follows from it.
-/

namespace Docket

open Store Issuing Simulation

/-- Calls for a tenant that have not been given up. -/
structure Call.ActsFor (call : Call) (tenant : Id) : Prop where
  scope : call.caller.tenant = some tenant
  going : call.caller.cancelled = false

/-- A failure of a request, as the call reports it that it ends. -/
def Step.failure : Step → StoreFailure → Failure
  | insertCounter c => Service.insertFailure c.key
  | _ => StoreFailure.toFailure

/-- Replies that a key was taken, to a request that is made again each time. -/
def Step.Retries (step : Step) (later : List Response) : Prop :=
  ∀ r ∈ later, ∃ key, r = ⟨step, .error (.duplicate key)⟩

namespace Request

open Service

def check : Request → Except Violation Unit
  | generateNumber documentType _ => checkDocumentType documentType
  | createCounter new => checkNewCounter new
  | updateCounter _ settings => checkSettings settings
  | createDocument new => checkReferences new
  | _ => .ok ()

/-- The first request of a call for a tenant. -/
def opening (service : Service) (call : Call) (tenant : Id) : Request → Step
  | generateNumber documentType series => .acquire ⟨tenant, documentType, series⟩
  | createCounter new => .findCounterByKey tenant new.key
  | updateCounter id _ => .findCounter tenant id
  | deleteCounter id => .findCounter tenant id
  | getCounter key => .findCounterByKey tenant key
  | listCounters => .listCounters tenant
  | createDocument new => .insertDocument (service.newDocument call tenant new)
  | getDocument id => .findDocument tenant id
  | assignNumber id _ => .findDocument tenant id
  | changeStatus id _ _ => .findDocument tenant id
  | availableTransitions id => .findStatus tenant id
  | statusHistory id => .listChanges tenant id
  | validateTransition id _ => .findDocument tenant id

/-- The requests that a call makes for a tenant, given what it has been told. -/
inductive Prompts (service : Service) (call : Call) (tenant : Id) :
    Request → List Response → Step → Prop
  | opening {request : Request} (checked : request.check = .ok ()) :
      Prompts service call tenant request [] (request.opening service call tenant)
  | allocate {documentType : Id} {series : String} {later : List Response}
      (checked : checkDocumentType documentType = .ok ())
      (retries : Step.Retries
        (.allocate (service.allocation call ⟨tenant, documentType, series⟩)) later) :
      Prompts service call tenant (generateNumber documentType series)
        (⟨.acquire ⟨tenant, documentType, series⟩, .ok ()⟩ :: later)
        (.allocate (service.allocation call ⟨tenant, documentType, series⟩))
  | insert {new : NewCounter} (checked : checkNewCounter new = .ok ()) :
      Prompts service call tenant (createCounter new)
        [⟨.findCounterByKey tenant new.key, .ok (none : Option Counter)⟩]
        (.insertCounter (service.newCounter call tenant new))
  | configure {id : Id} {settings : CounterSettings} {c : Counter}
      (checked : checkSettings settings = .ok ()) :
      Prompts service call tenant (updateCounter id settings)
        [⟨.findCounter tenant id, .ok (some c)⟩]
        (.updateSettings { c with settings := settings, updated := service.stamp call })
  | retire {id : Id} {c : Counter} :
      Prompts service call tenant (deleteCounter id) [⟨.findCounter tenant id, .ok (some c)⟩]
        (.retireCounter tenant id (service.stamp call))
  | lock {id documentType : Id} {series : String} {d : Document}
      (unnumbered : checkUnnumbered d = .ok ()) (typed : d.documentType = some documentType)
      (counts : succ? d.version = .ok (d.version + 1)) :
      Prompts service call tenant (assignNumber id series)
        [⟨.findDocument tenant id, .ok (some d)⟩] (.acquire ⟨tenant, documentType, series⟩)
  | assign {id documentType : Id} {series : String} {d : Document} {later : List Response}
      (unnumbered : checkUnnumbered d = .ok ()) (typed : d.documentType = some documentType)
      (counts : succ? d.version = .ok (d.version + 1))
      (retries : Step.Retries
        (.assignNumber { d with version := d.version + 1, updated := service.stamp call } d.version
          (service.allocation call ⟨tenant, documentType, series⟩)) later) :
      Prompts service call tenant (assignNumber id series)
        (⟨.findDocument tenant id, .ok (some d)⟩ ::
          ⟨.acquire ⟨tenant, documentType, series⟩, .ok ()⟩ :: later)
        (.assignNumber { d with version := d.version + 1, updated := service.stamp call } d.version
          (service.allocation call ⟨tenant, documentType, series⟩))
  | change {id : Id} {target : Status} {reason : Option String} {d : Document}
      (allowed : d.checkChange target = .ok .valid)
      (counts : succ? d.version = .ok (d.version + 1)) :
      Prompts service call tenant (changeStatus id target reason)
        [⟨.findDocument tenant id, .ok (some d)⟩]
        (.applyChange (service.changed call d target (d.version + 1)) d.version
          (service.change call d target reason (d.version + 1)))

/-- Failures of calls that have asked nothing of the store. -/
inductive Refuses (call : Call) (request : Request) : Failure → Prop
  | unscoped (scope : call.caller.tenant = none) : Refuses call request (.error .missingScope)
  | invalid {v : Violation} (checked : request.check = .error v) :
      Refuses call request (.error v.error)
  | cancelled (going : call.caller.cancelled = true) : Refuses call request (.error .cancelled)

/-- Failures of calls for a tenant because of what they have found. -/
inductive Declines (service : Service) (call : Call) (tenant : Id) :
    Request → List Response → Failure → Prop
  | noCounter {request : Request} {id : Id}
      (looks : request.opening service call tenant = .findCounter tenant id) :
      Declines service call tenant request
        [⟨.findCounter tenant id, .ok (none : Option Counter)⟩]
        (.error (.notFound "counter" id.text))
  | noKey {key : CounterKey} :
      Declines service call tenant (getCounter key)
        [⟨.findCounterByKey tenant key, .ok (none : Option Counter)⟩]
        (.error (.notFound "counter" key.text))
  | noDocument {request : Request} {id : Id}
      (looks : request.opening service call tenant = .findDocument tenant id) :
      Declines service call tenant request
        [⟨.findDocument tenant id, .ok (none : Option Document)⟩]
        (.error (.notFound "document" id.text))
  | keyTaken {new : NewCounter} {c : Counter} :
      Declines service call tenant (createCounter new)
        [⟨.findCounterByKey tenant new.key, .ok (some c)⟩]
        (.error (Clash.counterExists new.key).error)
  | retired {id : Id} {c : Counter} :
      Declines service call tenant (deleteCounter id)
        [⟨.findCounter tenant id, .ok (some c)⟩,
          ⟨.retireCounter tenant id (service.stamp call), .ok false⟩]
        (.error (.notFound "counter" id.text))
  | barred {id : Id} {series : String} {d : Document} {clash : Clash}
      (unnumbered : checkUnnumbered d = .error clash) :
      Declines service call tenant (assignNumber id series)
        [⟨.findDocument tenant id, .ok (some d)⟩] (.error clash.error)
  | untyped {id : Id} {series : String} {d : Document} {v : Violation}
      (unnumbered : checkUnnumbered d = .ok ()) (typed : numberingType d = .error v) :
      Declines service call tenant (assignNumber id series)
        [⟨.findDocument tenant id, .ok (some d)⟩] (.error v.error)
  | uncounted {id documentType : Id} {series : String} {d : Document} {o : Overflow}
      (unnumbered : checkUnnumbered d = .ok ()) (typed : d.documentType = some documentType)
      (counts : succ? d.version = .error o) :
      Declines service call tenant (assignNumber id series)
        [⟨.findDocument tenant id, .ok (some d)⟩] (.overflow o)
  | rejected {id : Id} {target : Status} {reason : Option String} {d : Document}
      {objection : Objection} (verdict : d.checkChange target = .ok (.rejected objection)) :
      Declines service call tenant (changeStatus id target reason)
        [⟨.findDocument tenant id, .ok (some d)⟩] (.error objection.error)
  | unmoved {id : Id} {target : Status} {reason : Option String} {d : Document} {o : Overflow}
      (verdict : d.checkChange target = .ok .valid) (counts : succ? d.version = .error o) :
      Declines service call tenant (changeStatus id target reason)
        [⟨.findDocument tenant id, .ok (some d)⟩] (.overflow o)
  | unjudged {request : Request} {id : Id} {target : Status} {d : Document} {o : Overflow}
      (judges : (∃ reason, request = changeStatus id target reason) ∨
        request = validateTransition id target)
      (verdict : d.checkChange target = .error o) :
      Declines service call tenant request [⟨.findDocument tenant id, .ok (some d)⟩] (.overflow o)

/-- What calls answer where their last request succeeds. -/
inductive Answers (service : Service) (call : Call) (tenant : Id) :
    (request : Request) → (step : Step) → step.Result → Outcome request.Answer → Prop
  | generated {documentType : Id} {series : String} {a : Allocation} {c : Counter} :
      Answers service call tenant (generateNumber documentType series) (.allocate a) c
        ⟨c.number, [.numberAllocated (.of tenant c.number (service.stamp call))]⟩
  | created {new : NewCounter} {b c : Counter} :
      Answers service call tenant (createCounter new) (.insertCounter b) c
        ⟨c, [.counterCreated (.of c (service.stamp call))]⟩
  | configured {id : Id} {settings : CounterSettings} {b c : Counter} :
      Answers service call tenant (updateCounter id settings) (.updateSettings b) c
        ⟨c, [.counterUpdated (.of c (service.stamp call))]⟩
  | retired {id : Id} {stamp : Stamp} {c : Counter} :
      Answers service call tenant (deleteCounter id) (.retireCounter tenant id stamp) true
        ⟨(), [.counterRetired (.of c (service.stamp call))]⟩
  | drafted {new : NewDocument} {b d : Document} :
      Answers service call tenant (createDocument new) (.insertDocument b) d
        ⟨d, [.documentCreated (.of d (service.stamp call))]⟩
  | assigned {id : Id} {series : String} {b d : Document} {expected : Int} {a : Allocation}
      {n : Number} :
      Answers service call tenant (assignNumber id series) (.assignNumber b expected a) (d, n)
        ⟨d, [.numberAllocated (.of tenant n (service.stamp call)),
          .numberAssigned (.of d (service.stamp call))]⟩
  | moved {id : Id} {target : Status} {reason : Option String} {b d : Document} {expected : Int}
      {c : StatusChange} :
      Answers service call tenant (changeStatus id target reason) (.applyChange b expected c) d
        ⟨d, [.statusChanged (.of tenant c)]⟩
  | counter {key : CounterKey} {c : Counter} :
      Answers service call tenant (getCounter key) (.findCounterByKey tenant key) (some c) ⟨c, []⟩
  | counters {cs : List Counter} :
      Answers service call tenant listCounters (.listCounters tenant) cs ⟨cs, []⟩
  | document {id : Id} {d : Document} :
      Answers service call tenant (getDocument id) (.findDocument tenant id) (some d) ⟨d, []⟩
  | available {id : Id} {status : Option Status} :
      Answers service call tenant (availableTransitions id) (.findStatus tenant id) status
        ⟨(status.map Status.available).getD [], []⟩
  | history {id : Id} {changes : List StatusChange} :
      Answers service call tenant (statusHistory id) (.listChanges tenant id) changes ⟨changes, []⟩
  | judged {id : Id} {target : Status} {d : Document} {verdict : Verdict}
      (judges : d.checkChange target = .ok verdict) :
      Answers service call tenant (validateTransition id target) (.findDocument tenant id) (some d)
        ⟨verdict, []⟩

/-- What a call ends with, given what it has been told. -/
inductive Concludes (service : Service) (call : Call) (request : Request) :
    List Response → Except Failure (Outcome request.Answer) → Prop
  | refused {f : Failure} (refuses : request.Refuses call f) :
      Concludes service call request [] (.error f)
  | failed {tenant : Id} {told : List Response} {step : Step} (f : StoreFailure)
      (prompted : request.Prompts service call tenant told step) :
      Concludes service call request (told ++ [⟨step, .error f⟩]) (.error (step.failure f))
  | declined {tenant : Id} {told : List Response} {f : Failure}
      (declines : request.Declines service call tenant told f) :
      Concludes service call request told (.error f)
  | answered {tenant : Id} {told : List Response} {step : Step} {a : step.Result}
      {outcome : Outcome request.Answer} (acts : call.ActsFor tenant)
      (prompted : request.Prompts service call tenant told step)
      (answers : request.Answers service call tenant step a outcome) :
      Concludes service call request (told ++ [⟨step, .ok a⟩]) (.ok outcome)

end Request

namespace Service

/-- A program that makes the requests of a call and ends as the call does, given what it has been
told. -/
def Conducts (service : Service) (call : Call) (request : Request) :
    Program (Except Failure (Outcome request.Answer)) → List Response → Prop :=
  Program.Follows
    (fun told step => ∃ tenant, call.ActsFor tenant ∧
      request.Prompts service call tenant told step)
    (request.Concludes service call)

open Docket.Action Request

variable {service : Service} {call : Call} {request : Request} {tenant : Id}
  {told : List Response} {step : Step}

section Beginning

theorem conducts_scope_bind {f : Id → Action (Outcome request.Answer)}
    (hf : ∀ tenant, call.caller.tenant = some tenant →
      service.Conducts call request (f tenant).run []) :
    service.Conducts call request (scope call >>= f).run [] := by
  unfold scope
  cases htenant : call.caller.tenant with
  | none => exact .refused (.unscoped htenant)
  | some tenant => exact hf tenant htenant

theorem conducts_check_bind {x : Except Violation Unit} (hx : request.check = x)
    {f : Unit → Action (Outcome request.Answer)}
    (hf : request.check = .ok () → service.Conducts call request (f ()).run []) :
    service.Conducts call request (check x >>= f).run [] := by
  subst hx
  cases hcheck : request.check with
  | ok => exact hf hcheck
  | error v => exact .refused (.invalid hcheck)

theorem conducts_start_bind {f : Unit → Action (Outcome request.Answer)}
    (hf : call.caller.cancelled = false → service.Conducts call request (f ()).run []) :
    service.Conducts call request (start call >>= f).run [] := by
  unfold start
  cases hgoing : call.caller.cancelled with
  | true => exact .refused (.cancelled hgoing)
  | false => exact hf hgoing

theorem conducts_begin {f : Id → Action (Outcome request.Answer)}
    (hf : ∀ tenant, call.ActsFor tenant → service.Conducts call request (f tenant).run []) :
    service.Conducts call request
      (scope call >>= fun tenant => start call >>= fun _ => f tenant).run [] :=
  conducts_scope_bind fun tenant htenant => conducts_start_bind fun hgoing =>
    hf tenant ⟨htenant, hgoing⟩

theorem conducts_begin_checked {x : Except Violation Unit} (hx : request.check = x)
    {f : Id → Action (Outcome request.Answer)}
    (hf : ∀ tenant, call.ActsFor tenant → request.check = .ok () →
      service.Conducts call request (f tenant).run []) :
    service.Conducts call request
      (scope call >>= fun tenant => check x >>= fun _ => start call >>= fun _ => f tenant).run
      [] :=
  conducts_scope_bind fun tenant htenant => conducts_check_bind hx fun hchecked =>
    conducts_start_bind fun hgoing => hf tenant ⟨htenant, hgoing⟩ hchecked

end Beginning

section Requests

variable (hcall : call.ActsFor tenant)
  {f : step.Result → Action (Outcome request.Answer)}

include hcall

theorem conducts_request (hstep : request.Prompts service call tenant told step)
    {next : step.Reply → Program (Except Failure (Outcome request.Answer))}
    (hok : ∀ a, service.Conducts call request (next (.ok a)) (told ++ [⟨step, .ok a⟩]))
    (herror : ∀ e, service.Conducts call request (next (.error e)) (told ++ [⟨step, .error e⟩])) :
    service.Conducts call request (.request step next) told := by
  refine ⟨⟨tenant, hcall, hstep⟩, fun reply => ?_⟩
  cases reply with
  | ok a => exact hok a
  | error e => exact herror e

theorem conducts_ask_bind (hstep : request.Prompts service call tenant told step)
    (hfailure : step.failure = StoreFailure.toFailure)
    (hf : ∀ a, service.Conducts call request (f a).run (told ++ [⟨step, .ok a⟩])) :
    service.Conducts call request (ask step >>= f).run told := by
  rw [run_ask_bind]
  refine conducts_request hcall hstep hf fun e => ?_
  rw [← hfailure]
  exact .failed e hstep

theorem conducts_retrying
    (hstep : ∀ later, step.Retries later →
      request.Prompts service call tenant (told ++ later) step)
    {k : step.Reply → Program (Except Failure (Outcome request.Answer))}
    (hk : ∀ later reply, step.Retries later →
      service.Conducts call request (k reply) (told ++ later ++ [⟨step, reply⟩]))
    (n : Nat) {later : List Response} (hlater : step.Retries later) :
    service.Conducts call request ((retrying (Program.ask step) n).bind k) (told ++ later) := by
  induction n generalizing later with
  | zero =>
    exact conducts_request hcall (hstep later hlater) (fun a => hk later (.ok a) hlater)
      fun e => hk later (.error e) hlater
  | succ n ih =>
    rw [retrying_bind_succ]
    refine conducts_request hcall (hstep later hlater) (fun a => hk later (.ok a) hlater)
      fun e => ?_
    cases e with
    | duplicate key =>
      rw [List.append_assoc]
      refine ih fun r hr => ?_
      rcases List.mem_append.mp hr with hr | hr
      · exact hlater r hr
      · exact ⟨key, List.mem_singleton.mp hr⟩
    | _ => exact hk later _ hlater

theorem conducts_attempt_bind
    (hstep : ∀ later, step.Retries later →
      request.Prompts service call tenant (told ++ later) step)
    (hfailure : step.failure = StoreFailure.toFailure)
    (hf : ∀ later a, step.Retries later →
      service.Conducts call request (f a).run (told ++ later ++ [⟨step, .ok a⟩])) :
    service.Conducts call request (service.attempt step >>= f).run told := by
  have hnone : step.Retries [] := fun _ hr => absurd hr List.not_mem_nil
  rw [run_attempt_bind, ← List.append_nil told]
  refine conducts_retrying hcall hstep (fun later reply hlater => ?_) _ hnone
  cases reply with
  | ok a => exact hf later a hlater
  | error e =>
    change service.Conducts call request (.done (.error (StoreFailure.toFailure e))) _
    rw [← hfailure]
    exact .failed e (hstep later hlater)

theorem conducts_liveCounter_bind {id : Id} {f : Counter → Action (Outcome request.Answer)}
    (hchecked : request.check = .ok ())
    (hopening : request.opening service call tenant = .findCounter tenant id)
    (hf : ∀ c, service.Conducts call request (f c).run [⟨.findCounter tenant id, .ok (some c)⟩]) :
    service.Conducts call request (liveCounter tenant id >>= f).run [] := by
  unfold liveCounter
  rw [Action.bind_assoc]
  refine conducts_ask_bind hcall (hopening ▸ .opening hchecked) rfl fun found => ?_
  cases found with
  | none => exact .declined (.noCounter hopening)
  | some c => exact hf c

theorem conducts_load_bind {id : Id} {f : Document → Action (Outcome request.Answer)}
    (hchecked : request.check = .ok ())
    (hopening : request.opening service call tenant = .findDocument tenant id)
    (hf : ∀ d, service.Conducts call request (f d).run [⟨.findDocument tenant id, .ok (some d)⟩]) :
    service.Conducts call request (load tenant id >>= f).run [] := by
  unfold load
  rw [Action.bind_assoc]
  refine conducts_ask_bind hcall (hopening ▸ .opening hchecked) rfl fun found => ?_
  cases found with
  | none => exact .declined (.noDocument hopening)
  | some d => exact hf d

end Requests

theorem documentType_of_numberingType {d : Document} {documentType : Id}
    (h : numberingType d = .ok documentType) : d.documentType = some documentType := by
  unfold numberingType at h
  split at h
  · next ht => rw [ht, Except.ok.inj h]
  · cases h

/-- The program of any call makes the requests of the call and ends as the call does. -/
theorem conducts_serve (service : Service) (call : Call) (request : Request) :
    service.Conducts call request (service.serve call request).run [] := by
  cases request with
  | generateNumber documentType series =>
    refine conducts_begin_checked rfl fun tenant hcall hchecked => ?_
    refine conducts_ask_bind hcall (.opening hchecked) rfl fun _ =>
      conducts_attempt_bind hcall (fun later hlater => .allocate hchecked hlater) rfl
        fun later c hlater => ?_
    exact .answered hcall (.allocate hchecked hlater) .generated
  | createCounter new =>
    refine conducts_begin_checked rfl fun tenant hcall hchecked => ?_
    refine conducts_ask_bind hcall (.opening hchecked) rfl fun found => ?_
    cases found with
    | some c => exact .declined .keyTaken
    | none =>
      exact conducts_request hcall (.insert hchecked)
        (fun c => .answered hcall (.insert hchecked) .created) fun e =>
          .failed e (.insert hchecked)
  | updateCounter id settings =>
    refine conducts_begin_checked rfl fun tenant hcall hchecked => ?_
    refine conducts_liveCounter_bind hcall hchecked rfl fun c =>
      conducts_ask_bind hcall (.configure hchecked) rfl fun d => ?_
    exact .answered hcall (.configure hchecked) .configured
  | deleteCounter id =>
    refine conducts_begin fun tenant hcall => ?_
    refine conducts_liveCounter_bind hcall rfl rfl fun c =>
      conducts_ask_bind hcall .retire rfl fun retired => ?_
    cases retired with
    | true => exact .answered hcall .retire .retired
    | false => exact .declined .retired
  | getCounter key =>
    refine conducts_begin fun tenant hcall => ?_
    refine conducts_ask_bind hcall (.opening rfl) rfl fun found => ?_
    cases found with
    | none => exact .declined .noKey
    | some c => exact .answered hcall (.opening rfl) .counter
  | createDocument new =>
    refine conducts_begin_checked rfl fun tenant hcall hchecked => ?_
    exact conducts_ask_bind hcall (.opening hchecked) rfl fun d =>
      .answered hcall (.opening hchecked) .drafted
  | getDocument id =>
    refine conducts_begin fun tenant hcall => ?_
    exact conducts_load_bind hcall rfl rfl fun d => .answered hcall (.opening rfl) .document
  | assignNumber id series =>
    refine conducts_begin fun tenant hcall => ?_
    refine conducts_load_bind hcall rfl rfl fun d => ?_
    cases hunnumbered : checkUnnumbered d with
    | error clash => exact .declined (.barred hunnumbered)
    | ok =>
      cases htype : numberingType d with
      | error v => exact .declined (.untyped hunnumbered htype)
      | ok documentType =>
        have htyped := documentType_of_numberingType htype
        cases hversion : succ? d.version with
        | error o => exact .declined (.uncounted hunnumbered htyped hversion)
        | ok version =>
          obtain rfl := eq_of_succ? hversion
          refine conducts_ask_bind hcall (.lock hunnumbered htyped hversion) rfl fun _ =>
            conducts_attempt_bind hcall
              (fun later hlater => .assign hunnumbered htyped hversion hlater) rfl
              fun later a hlater => ?_
          exact .answered hcall (.assign hunnumbered htyped hversion hlater) .assigned
  | changeStatus id target reason =>
    refine conducts_begin fun tenant hcall => ?_
    refine conducts_load_bind hcall rfl rfl fun d => ?_
    cases hverdict : d.checkChange target with
    | error o => exact .declined (.unjudged (Or.inl ⟨reason, rfl⟩) hverdict)
    | ok verdict =>
      cases verdict with
      | rejected objection => exact .declined (.rejected hverdict)
      | valid =>
        cases hversion : succ? d.version with
        | error o => exact .declined (.unmoved hverdict hversion)
        | ok version =>
          obtain rfl := eq_of_succ? hversion
          exact conducts_ask_bind hcall (.change hverdict hversion) rfl fun saved =>
            .answered hcall (.change hverdict hversion) .moved
  | validateTransition id target =>
    refine conducts_begin fun tenant hcall => ?_
    refine conducts_load_bind hcall rfl rfl fun d => ?_
    cases hverdict : d.checkChange target with
    | error o => exact .declined (.unjudged (Or.inr rfl) hverdict)
    | ok verdict => exact .answered hcall (.opening rfl) (.judged hverdict)
  | listCounters =>
    refine conducts_begin fun tenant hcall => ?_
    exact conducts_ask_bind hcall (.opening rfl) rfl fun _ =>
      .answered hcall (.opening rfl) .counters
  | availableTransitions id =>
    refine conducts_begin fun tenant hcall => ?_
    exact conducts_ask_bind hcall (.opening rfl) rfl fun _ =>
      .answered hcall (.opening rfl) .available
  | statusHistory id =>
    refine conducts_begin fun tenant hcall => ?_
    exact conducts_ask_bind hcall (.opening rfl) rfl fun _ =>
      .answered hcall (.opening rfl) .history

end Service

namespace Request

variable {service : Service} {call : Call} {tenant : Id} {request : Request}
  {told : List Response} {step : Step} {r : Response}

theorem Prompts.asks (h : request.Prompts service call tenant told step) :
    request.Asks service call step := by
  cases h with
  | opening checked =>
    cases request with
    | createCounter new => exact rfl
    | createDocument new => exact ⟨tenant, rfl⟩
    | _ => exact trivial
  | allocate => exact ⟨_, rfl⟩
  | insert => exact ⟨tenant, rfl⟩
  | configure | retire => exact rfl
  | lock => exact trivial
  | assign => exact ⟨rfl, _, rfl⟩
  | change => exact ⟨rfl, rfl⟩

/-- A call goes on only from reads that succeed, and from writes for which a key was taken. -/
theorem Prompts.told_cases (h : request.Prompts service call tenant told step) (hr : r ∈ told) :
    Scene.isWrite r.step = false ∧ r.reply.isOk = true ∨
      ∃ key, r.reply = .error (.duplicate key) := by
  cases h with
  | opening => exact absurd hr List.not_mem_nil
  | allocate checked retries =>
    rcases List.mem_cons.mp hr with rfl | hr
    · exact Or.inl ⟨rfl, rfl⟩
    · obtain ⟨key, rfl⟩ := retries r hr
      exact Or.inr ⟨key, rfl⟩
  | assign unnumbered typed counts retries =>
    rcases List.mem_cons.mp hr with rfl | hr
    · exact Or.inl ⟨rfl, rfl⟩
    · rcases List.mem_cons.mp hr with rfl | hr
      · exact Or.inl ⟨rfl, rfl⟩
      · obtain ⟨key, rfl⟩ := retries r hr
        exact Or.inr ⟨key, rfl⟩
  | insert | configure | retire | lock | change =>
    obtain rfl := List.mem_singleton.mp hr
    exact Or.inl ⟨rfl, rfl⟩

theorem Prompts.isOk_eq_false_of_write (h : request.Prompts service call tenant told step)
    (hr : r ∈ told) (hwrite : Scene.isWrite r.step = true) : r.reply.isOk = false := by
  rcases h.told_cases hr with ⟨hread, -⟩ | ⟨key, hreply⟩
  · cases hread.symm.trans hwrite
  · rw [hreply]
    rfl

/-- A call fails for what it has found only after requests that read, and after a counter was not
there to be retired. -/
theorem Declines.told_cases {f : Failure} (h : request.Declines service call tenant told f)
    (hr : r ∈ told) :
    Scene.isWrite r.step = false ∧ r.reply.isOk = true ∨
      ∃ id stamp, r = ⟨.retireCounter tenant id stamp, .ok false⟩ := by
  cases h with
  | retired =>
    rcases List.mem_cons.mp hr with rfl | hr
    · exact Or.inl ⟨rfl, rfl⟩
    · exact Or.inr ⟨_, _, List.mem_singleton.mp hr⟩
  | _ =>
    obtain rfl := List.mem_singleton.mp hr
    exact Or.inl ⟨rfl, rfl⟩

/-- Writes that succeed are the last thing that a call asks for, and it succeeds with them. -/
theorem Concludes.succeeds_of_write {a : Except Failure (Outcome request.Answer)}
    (h : request.Concludes service call told a) (hr : r ∈ told)
    (hwrite : Scene.isWrite r.step = true) (hok : r.reply.isOk = true) :
    (∃ outcome, a = .ok outcome) ∨
      ∃ tenant id stamp, r = ⟨.retireCounter tenant id stamp, .ok false⟩ := by
  cases h with
  | refused => exact absurd hr List.not_mem_nil
  | answered => exact Or.inl ⟨_, rfl⟩
  | declined declines =>
    rcases declines.told_cases hr with ⟨hread, -⟩ | ⟨id, stamp, h⟩
    · cases hread.symm.trans hwrite
    · exact Or.inr ⟨_, id, stamp, h⟩
  | failed f prompted =>
    rcases List.mem_append.mp hr with hr | hr
    · cases (prompted.isOk_eq_false_of_write hr hwrite).symm.trans hok
    · obtain rfl := List.mem_singleton.mp hr
      cases hok

end Request

namespace Service

variable {service : Service} {call : Call} {request : Request} {told : List Response}
  {p : Program (Except Failure (Outcome request.Answer))}

theorem Conducts.done_of_write (h : service.Conducts call request p told) {r : Response}
    (hr : r ∈ told) (hwrite : Scene.isWrite r.step = true) (hok : r.reply.isOk = true) :
    ∃ a, p = .done a ∧ request.Concludes service call told a := by
  cases p with
  | done a => exact ⟨a, rfl, h⟩
  | request step next =>
    obtain ⟨⟨tenant, -, prompted⟩, -⟩ := h
    cases (prompted.isOk_eq_false_of_write hr hwrite).symm.trans hok

end Service

namespace Course

variable {ι : Type} {β : ι → Type} [DecidableEq ι] {σ : Course ι β} {i j : ι} {e : Exchange}
  {p : Program (β i)}

def told (σ : Course ι β) (i : ι) : List Response :=
  (σ.own i).map fun e => ⟨e.step, e.reply⟩

theorem told_reply_self : (σ.reply i e p).told i = σ.told i ++ [⟨e.step, e.reply⟩] := by
  simp only [told, own_reply_self, List.map_append, List.map_cons, List.map_nil]

theorem told_reply_of_ne (h : j ≠ i) : (σ.reply i e p).told j = σ.told j := by
  simp only [told, own_reply_of_ne h]

theorem exists_mem_of_told {r : Response} (hr : r ∈ σ.told i) :
    ∃ e, (i, e) ∈ σ.trace ∧ r = ⟨e.step, e.reply⟩ := by
  obtain ⟨e, he, rfl⟩ := List.mem_map.mp hr
  exact ⟨e, mem_own_iff.mp he, rfl⟩

theorem told_of_mem (he : (i, e) ∈ σ.trace) : ⟨e.step, e.reply⟩ ∈ σ.told i :=
  List.mem_map.mpr ⟨e, mem_own_iff.mpr he, rfl⟩

end Course

section Run

open Course

variable {ι : Type} [DecidableEq ι] {service : Service} {jobs : ι → Job} {s : Store}
  {σ τ : Course ι fun i => (jobs i).Answer} {i : ι}

/-- Calls that conduct themselves by what they have been told, on a store that has told it. -/
structure Conducted (service : Service) (jobs : ι → Job)
    (σ : Course ι fun i => (jobs i).Answer) : Prop where
  conducts : ∀ i, service.Conducts (jobs i).call (jobs i).request (σ.rest i) (σ.told i)
  asked : ∀ i e, (i, e) ∈ σ.trace → (jobs i).request.Asks service (jobs i).call e.step
  replied : ∀ i e, (i, e) ∈ σ.trace → e.before.Replies e.step e.reply e.after

theorem Conducted.prompts (hσ : Conducted service jobs σ) {step : Step}
    {next : step.Reply → Program (jobs i).Answer} (hrest : σ.rest i = .request step next) :
    ∃ tenant, (jobs i).call.ActsFor tenant ∧
      (jobs i).request.Prompts service (jobs i).call tenant (σ.told i) step := by
  have hconducts := hσ.conducts i
  rw [hrest] at hconducts
  exact hconducts.1

theorem Conducted.asks (hσ : Conducted service jobs σ) {step : Step}
    {next : step.Reply → Program (jobs i).Answer} (hrest : σ.rest i = .request step next) :
    (jobs i).request.Asks service (jobs i).call step := by
  obtain ⟨tenant, -, prompted⟩ := hσ.prompts hrest
  exact prompted.asks

theorem Conducted.move (h : Move σ τ) (hσ : Conducted service jobs σ) :
    Conducted service jobs τ := by
  obtain ⟨hrest, hreplies⟩ := h
  rename_i i step next reply t
  refine ⟨fun j => ?_, fun j e he => ?_, fun j e he => ?_⟩
  · by_cases hj : j = i
    · subst hj
      have hconducts := hσ.conducts j
      rw [hrest] at hconducts
      rw [reply_rest_self, told_reply_self]
      exact hconducts.2 reply
    · rw [reply_rest_of_ne hj, told_reply_of_ne hj]
      exact hσ.conducts j
  · rcases List.mem_append.mp he with he | he
    · exact hσ.asked j e he
    · cases List.mem_singleton.mp he
      exact hσ.asks hrest
  · rcases List.mem_append.mp he with he | he
    · exact hσ.replied j e he
    · cases List.mem_singleton.mp he
      exact hreplies

theorem conducted_start (s : Store) :
    Conducted service jobs (.start s fun i => (jobs i).program service) :=
  { conducts := fun _ => service.conducts_serve _ _
    asked := fun _ _ he => absurd he List.not_mem_nil
    replied := fun _ _ he => absurd he List.not_mem_nil }

theorem conducted_of_reaches (h : Reaches (.start s fun i => (jobs i).program service) σ) :
    Conducted service jobs σ := by
  induction h with
  | refl => exact conducted_start s
  | tail _ hmove ih => exact ih.move hmove

theorem Conducted.concludes (hσ : Conducted service jobs σ) {a : (jobs i).Answer}
    (hdone : σ.rest i = .done a) :
    (jobs i).request.Concludes service (jobs i).call (σ.told i) a := by
  have hconducts := hσ.conducts i
  rw [hdone] at hconducts
  exact hconducts

theorem Conducted.succeeds_of_write (hσ : Conducted service jobs σ) {e : Exchange}
    (he : (i, e) ∈ σ.trace) (hwrite : Scene.isWrite e.step = true) (hok : e.reply.isOk = true) :
    σ.succeeds i = true ∨ ∃ tenant id stamp,
      (⟨e.step, e.reply⟩ : Response) = ⟨.retireCounter tenant id stamp, .ok false⟩ := by
  obtain ⟨a, hdone, hconcludes⟩ := (hσ.conducts i).done_of_write (told_of_mem he) hwrite hok
  rcases hconcludes.succeeds_of_write (told_of_mem he) hwrite hok with ⟨outcome, rfl⟩ | hretire
  · exact Or.inl (succeeds_iff.mpr ⟨outcome, hdone⟩)
  · exact Or.inr hretire

end Run

end Docket
