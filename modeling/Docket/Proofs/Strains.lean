import Docket.Proofs.Conduct
import Docket.Proofs.Guarded
import Docket.Proofs.Rules

/-! # Replies that strain a call

Calls count one further from versions, and add amounts up. The replies after which that leaves the
range of integers or decimals can be told from the request, and a call ends in an overflow right
after one of them and nowhere else.
-/

namespace Docket

open Store Issuing

variable {α β : Type}

theorem succ?_eq_error_iff {n : Int} {o : Overflow} :
    succ? n = .error o ↔ o = .integerSum ∧ int64Bound ≤ n + 1 := by
  unfold succ?
  split
  · next h => exact ⟨nofun, fun ⟨_, hn⟩ => absurd h (Int.not_lt.mpr hn)⟩
  · next h => simp [eq_comm, Int.not_lt.mp h]

theorem StoreFailure.toFailure_eq_overflow_iff {f : StoreFailure} {o : Overflow} :
    f.toFailure = .overflow o ↔ f = .overflow o := by
  cases f <;> simp [toFailure]

/-! ## Documents -/

namespace Document

variable {d : Document} {target : Status} {o : Overflow}

theorem grossTotal_eq_error_iff : d.grossTotal = .error o ↔ grossSum d.lines = .error o := by
  unfold grossTotal
  cases grossSum d.lines <;> simp [bind, Except.bind, pure, Except.pure]

theorem checkClose_eq_error_iff : d.checkClose = .error o ↔ grossSum d.lines = .error o := by
  rw [← grossTotal_eq_error_iff, checkClose]
  cases hlines : d.lines with
  | nil => simp [grossTotal, hlines, grossSum, pure, Except.pure, bind, Except.bind]
  | cons l ls => cases d.grossTotal <;> simp

theorem checkChange_eq_error_iff :
    d.checkChange target = .error o ↔
      target = .closed ∧ d.status = .opened ∧ grossSum d.lines = .error o := by
  rw [← checkClose_eq_error_iff]
  unfold checkChange
  cases target <;> cases d.status <;> simp [Status.canChangeTo, Status.available]

end Document

namespace Request

theorem asks_insertCounter {service : Service} {call : Call} {request : Request} {c : Counter}
    (hasks : request.Asks service call (.insertCounter c)) :
    ∃ new tenant, request = .createCounter new ∧ c = service.newCounter call tenant new := by
  cases request with
  | createCounter new =>
    obtain ⟨tenant, rfl⟩ := hasks
    exact ⟨new, tenant, rfl, rfl⟩
  | _ => exact hasks.elim

def closes : Request → Bool
  | changeStatus _ target _ => target = .closed
  | validateTransition _ target => target = .closed
  | _ => false

/-- The document passes all that a request asks of it before it is changed. -/
def Accepts : Request → Document → Prop
  | assignNumber _ _, d => Service.checkUnnumbered d = .ok () ∧ d.documentType.isSome = true
  | changeStatus _ target _, d => d.checkChange target = .ok .valid
  | _, _ => False

/-- Documents with which a request leaves the range of its arithmetic. -/
inductive Overtaxes (request : Request) (d : Document) : Overflow → Prop
  | version (accepts : request.Accepts d) (last : int64Bound ≤ d.version + 1) :
      Overtaxes request d .integerSum
  | total {o : Overflow} (closes : request.closes = true) (opened : d.status = .opened)
      (sum : Document.grossSum d.lines = .error o) : Overtaxes request d o

/-- Replies with which a request leaves the range of its arithmetic. -/
def Strains (request : Request) (step : Step) (reply : step.Reply) (o : Overflow) : Prop :=
  reply = .error (.overflow o) ∨ ∃ d, step.load? reply = some d ∧ request.Overtaxes d o

variable {request : Request} {step : Step} {o : Overflow} {d : Document}

theorem overtaxes_iff :
    request.Overtaxes d o ↔ request.Accepts d ∧ succ? d.version = .error o ∨
      request.closes = true ∧ d.status = .opened ∧ Document.grossSum d.lines = .error o := by
  rw [succ?_eq_error_iff]
  constructor
  · rintro (⟨accepts, last⟩ | ⟨closes, opened, sum⟩)
    · exact Or.inl ⟨accepts, rfl, last⟩
    · exact Or.inr ⟨closes, opened, sum⟩
  · rintro (⟨accepts, rfl, last⟩ | ⟨closes, opened, sum⟩)
    · exact .version accepts last
    · exact .total closes opened sum

theorem overtaxes_assignNumber_iff {id : Id} {series : String} :
    (assignNumber id series).Overtaxes d o ↔
      (Service.checkUnnumbered d = .ok () ∧ d.documentType.isSome = true) ∧
        succ? d.version = .error o := by
  rw [overtaxes_iff]
  simp [Accepts, closes]

theorem overtaxes_changeStatus_iff {id : Id} {target : Status} {reason : Option String} :
    (changeStatus id target reason).Overtaxes d o ↔ d.checkChange target = .error o ∨
      d.checkChange target = .ok .valid ∧ succ? d.version = .error o := by
  rw [overtaxes_iff, Document.checkChange_eq_error_iff, or_comm]
  simp [Accepts, closes]

theorem overtaxes_validateTransition_iff {id : Id} {target : Status} :
    (validateTransition id target).Overtaxes d o ↔ d.checkChange target = .error o := by
  rw [overtaxes_iff, Document.checkChange_eq_error_iff]
  simp [Accepts, closes]

theorem strains_error_iff {f : StoreFailure} :
    request.Strains step (.error f) o ↔ f = .overflow o := by
  have hload : step.load? (.error f) = none := by cases step <;> rfl
  simp [Strains, hload]

theorem strains_ok_iff {a : step.Result} :
    request.Strains step (.ok a) o ↔ ∃ d, step.load? (.ok a) = some d ∧ request.Overtaxes d o := by
  simp [Strains]

end Request

/-! ## Calls -/

theorem Step.failure_eq_overflow_iff {step : Step} {f : StoreFailure} {o : Overflow} :
    step.failure f = .overflow o ↔ f = .overflow o := by
  cases step with
  | insertCounter c =>
    cases f <;> simp [Step.failure, Service.insertFailure, StoreFailure.toFailure]
  | _ => exact StoreFailure.toFailure_eq_overflow_iff

namespace Request

variable {service : Service} {call : Call} {tenant : Id} {request : Request}
  {told : List Response} {step : Step} {r : Response} {o : Overflow}

/-- A call goes on only from replies that do not strain it. -/
theorem Prompts.not_strains (h : request.Prompts service call tenant told step) (hr : r ∈ told) :
    ¬ request.Strains r.step r.reply o := by
  rintro (hreply | ⟨d, hload, hovertaxes⟩)
  · rcases h.told_cases hr with ⟨-, hok⟩ | ⟨key, hkey⟩
    · rw [hreply] at hok
      cases hok
    · cases hreply.symm.trans hkey
  · cases h with
    | opening => exact absurd hr List.not_mem_nil
    | allocate checked retries =>
      rcases List.mem_cons.mp hr with rfl | hr
      · cases hload
      · obtain ⟨key, rfl⟩ := retries r hr
        cases hload
    | assign unnumbered typed counts retries =>
      rcases List.mem_cons.mp hr with rfl | hr
      · cases hload
        cases counts.symm.trans (overtaxes_assignNumber_iff.mp hovertaxes).2
      · rcases List.mem_cons.mp hr with rfl | hr
        · cases hload
        · obtain ⟨key, rfl⟩ := retries r hr
          cases hload
    | lock unnumbered typed counts =>
      obtain rfl := List.mem_singleton.mp hr
      cases hload
      cases counts.symm.trans (overtaxes_assignNumber_iff.mp hovertaxes).2
    | change allowed counts =>
      obtain rfl := List.mem_singleton.mp hr
      cases hload
      rcases overtaxes_changeStatus_iff.mp hovertaxes with hverdict | ⟨-, hversion⟩
      · cases allowed.symm.trans hverdict
      · cases counts.symm.trans hversion
    | insert | configure | retire =>
      obtain rfl := List.mem_singleton.mp hr
      cases hload

theorem not_strains_of_load? (hload : r.step.load? r.reply = none) (hok : r.reply.isOk = true) :
    ¬ request.Strains r.step r.reply o := by
  rintro (hreply | ⟨d, hd, -⟩)
  · rw [hreply] at hok
    cases hok
  · cases hload.symm.trans hd

theorem strains_loaded_iff {id : Id} {d : Document} :
    (∃ r ∈ [(⟨.findDocument tenant id, .ok (some d)⟩ : Response)],
      request.Strains r.step r.reply o) ↔ request.Overtaxes d o := by
  simp only [List.mem_singleton, exists_eq_left]
  refine strains_ok_iff.trans ⟨fun ⟨_, hload, h⟩ => ?_, fun h => ⟨d, rfl, h⟩⟩
  cases hload
  exact h

theorem Declines.overflow_iff {f : Failure} (h : request.Declines service call tenant told f) :
    f = .overflow o ↔ ∃ r ∈ told, request.Strains r.step r.reply o := by
  cases h with
  | noCounter | noKey | noDocument | keyTaken =>
    refine ⟨nofun, fun ⟨r, hr, hstrains⟩ => absurd hstrains ?_⟩
    obtain rfl := List.mem_singleton.mp hr
    exact not_strains_of_load? rfl rfl
  | retired =>
    refine ⟨nofun, fun ⟨r, hr, hstrains⟩ => absurd hstrains ?_⟩
    rcases List.mem_cons.mp hr with rfl | hr
    · exact not_strains_of_load? rfl rfl
    · obtain rfl := List.mem_singleton.mp hr
      exact not_strains_of_load? rfl rfl
  | barred unnumbered =>
    rw [strains_loaded_iff, overtaxes_assignNumber_iff, unnumbered]
    exact ⟨nofun, fun h => absurd h.1.1 nofun⟩
  | untyped unnumbered typed =>
    rw [strains_loaded_iff, overtaxes_assignNumber_iff]
    refine ⟨nofun, fun h => ?_⟩
    obtain ⟨documentType, htype⟩ := Option.isSome_iff_exists.mp h.1.2
    rw [Service.numberingType, htype] at typed
    cases typed
  | uncounted unnumbered typed counts =>
    rw [strains_loaded_iff, overtaxes_assignNumber_iff]
    simp [unnumbered, typed, counts]
  | rejected verdict =>
    rw [strains_loaded_iff, overtaxes_changeStatus_iff]
    simp [verdict]
  | unmoved verdict counts =>
    rw [strains_loaded_iff, overtaxes_changeStatus_iff]
    simp [verdict, counts]
  | unjudged judges verdict =>
    rw [strains_loaded_iff]
    rcases judges with ⟨reason, rfl⟩ | rfl
    · simp [overtaxes_changeStatus_iff, verdict]
    · simp [overtaxes_validateTransition_iff, verdict]

/-- A call ends in an overflow if its last reply strains it, and otherwise does not. -/
theorem Concludes.overflow_iff {a : Except Failure (Outcome request.Answer)}
    (h : request.Concludes service call told a) :
    a = .error (.overflow o) ↔ ∃ r ∈ told, request.Strains r.step r.reply o := by
  cases h with
  | refused refuses => cases refuses <;> simp
  | declined declines => rw [Except.error.injEq, declines.overflow_iff]
  | failed f prompted =>
    rw [Except.error.injEq, Step.failure_eq_overflow_iff, ← strains_error_iff]
    refine ⟨fun hlast => ⟨_, List.mem_append_right _ (List.mem_singleton_self _), hlast⟩, ?_⟩
    rintro ⟨r, hr, hstrains⟩
    rcases List.mem_append.mp hr with hr | hr
    · exact absurd hstrains (prompted.not_strains hr)
    · obtain rfl := List.mem_singleton.mp hr
      exact hstrains
  | answered acts prompted answers =>
    refine ⟨nofun, ?_⟩
    rintro ⟨r, hr, hstrains⟩
    rcases List.mem_append.mp hr with hr | hr
    · exact absurd hstrains (prompted.not_strains hr)
    · obtain rfl := List.mem_singleton.mp hr
      obtain ⟨d, hload, hovertaxes⟩ := strains_ok_iff.mp hstrains
      cases answers with
      | document =>
        rw [overtaxes_iff] at hovertaxes
        simp [Accepts, closes] at hovertaxes
      | judged judges =>
        cases hload
        cases judges.symm.trans (overtaxes_validateTransition_iff.mp hovertaxes)
      | _ => cases hload

end Request

end Docket
