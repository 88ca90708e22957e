import Docket.Proofs.Bare
import Docket.Proofs.Demands
import Docket.Proofs.Verdicts

/-! # Calls on stores that differ in configurations

Whatever a call is for, it goes alike on stores that differ in nothing but configurations: it makes
the same requests but for configurations and texts of numbers, and ends well on one store exactly if
it does on the other.
-/

namespace Docket

open Store Issuing Simulation

/-- Requests that only differ in configurations and texts of numbers, and how their answers do. -/
inductive Step.Twins : (step step' : Step) → (step.Result → step'.Result → Prop) → Prop
  | acquire (stream : Stream) : Twins (.acquire stream) (.acquire stream) fun _ _ => True
  | findCounter (tenant id : Id) :
    Twins (.findCounter tenant id) (.findCounter tenant id) fun (x y : Option Counter) =>
      x.map Counter.bare = y.map Counter.bare
  | findCounterByKey (tenant : Id) (key : CounterKey) :
    Twins (.findCounterByKey tenant key) (.findCounterByKey tenant key)
      fun (x y : Option Counter) => x.map Counter.bare = y.map Counter.bare
  | listCounters (tenant : Id) :
    Twins (.listCounters tenant) (.listCounters tenant) fun (x y : List Counter) =>
      x.map Counter.bare = y.map Counter.bare
  | insertCounter (c : Counter) : Twins (.insertCounter c) (.insertCounter c) fun x y => x = y
  | updateSettings {c d : Counter} (id : c.id = d.id) (settings : c.settings = d.settings) :
    Twins (.updateSettings c) (.updateSettings d) fun (x y : Counter) => x.bare = y.bare
  | retireCounter (tenant id : Id) (stamp : Stamp) :
    Twins (.retireCounter tenant id stamp) (.retireCounter tenant id stamp) fun x y => x = y
  | allocate (a : Allocation) :
    Twins (.allocate a) (.allocate a) fun (x y : Counter) => x.bare = y.bare
  | findDocument (tenant id : Id) :
    Twins (.findDocument tenant id) (.findDocument tenant id) fun (x y : Option Document) =>
      x.map Document.bare = y.map Document.bare
  | findStatus (tenant id : Id) :
    Twins (.findStatus tenant id) (.findStatus tenant id) fun x y => x = y
  | listChanges (tenant id : Id) :
    Twins (.listChanges tenant id) (.listChanges tenant id) fun x y => x = y
  | insertDocument (d : Document) : Twins (.insertDocument d) (.insertDocument d) fun x y => x = y
  | assignNumber {d e : Document} (bare : d.bare = e.bare) (expected : Int) (a : Allocation) :
    Twins (.assignNumber d expected a) (.assignNumber e expected a)
      fun (x y : Document × Number) => x.1.bare = y.1.bare ∧ x.2.bare = y.2.bare
  | applyChange {d e : Document} (bare : d.bare = e.bare) (expected : Int) (c : StatusChange) :
    Twins (.applyChange d expected c) (.applyChange e expected c)
      fun (x y : Document) => x.bare = y.bare

namespace Store

variable {s t : Store} {step step' : Step} {R : step.Result → step'.Result → Prop}

theorem commit_bare {α β : Type} {S : α → β → Prop} {x : Except StoreFailure (α × Store)}
    {y : Except StoreFailure (β × Store)} (h : s.bare = t.bare)
    (hxy : Paired (fun x y => S x.1 y.1 ∧ x.2.bare = y.2.bare) x y) :
    Paired S (s.commit x).1 (t.commit y).1 ∧ (s.commit x).2.bare = (t.commit y).2.bare := by
  cases hxy with
  | ok related => exact ⟨.ok related.1, related.2⟩
  | error f => exact ⟨.error f, h⟩

theorem paired_eq {α : Type} {x y : Except StoreFailure α} (h : x = y) :
    Paired (fun a b => a = b) x y := by
  subst h
  cases x with
  | ok a => exact .ok rfl
  | error f => exact .error f

/-- Stores that differ in configurations only answer alike, and do so again afterwards. -/
theorem Keyed.perform_twins (hs : s.Keyed) (ht : t.Keyed) (h : s.bare = t.bare)
    (hsteps : step.Twins step' R) :
    Paired R (s.perform step).1 (t.perform step').1 ∧
      (s.perform step).2.bare = (t.perform step').2.bare := by
  cases hsteps with
  | acquire stream => exact ⟨.ok trivial, h⟩
  | findCounter tenant id =>
    refine ⟨paired_of_map_eq ?_, h⟩
    exact (findCounter_bare.symm.trans (by rw [h])).trans findCounter_bare
  | findCounterByKey tenant key =>
    refine ⟨paired_of_map_eq ?_, h⟩
    exact (findCounterByKey_bare.symm.trans (by rw [h])).trans findCounterByKey_bare
  | listCounters tenant =>
    refine ⟨paired_of_map_eq ?_, h⟩
    exact (listCounters_bare.symm.trans (by rw [h])).trans listCounters_bare
  | insertCounter c =>
    obtain ⟨hreply, hstore⟩ := insertCounter_bare h c
    exact ⟨paired_eq hreply, hstore⟩
  | updateSettings id settings =>
    obtain ⟨hreply, hstore⟩ := updateSettings_bare h id settings
    exact ⟨paired_of_map_eq hreply, hstore⟩
  | retireCounter tenant id stamp =>
    obtain ⟨hreply, hstore⟩ := retireCounter_bare h tenant id stamp
    exact ⟨.ok hreply, hstore⟩
  | allocate a => exact commit_bare h (hs.paired_advance h ht a)
  | findDocument tenant id =>
    refine ⟨paired_of_map_eq ?_, h⟩
    exact (findDocument_bare.symm.trans (by rw [h])).trans findDocument_bare
  | findStatus tenant id =>
    refine ⟨paired_eq ?_, h⟩
    exact (findStatus_bare.symm.trans (by rw [h])).trans findStatus_bare
  | listChanges tenant id =>
    have hchanges : s.changes = t.changes := congrArg (fun u => u.changes) h
    refine ⟨paired_eq ?_, h⟩
    change s.listChanges tenant id = t.listChanges tenant id
    rw [listChanges, listChanges, changesOf, changesOf, hchanges]
  | insertDocument d => exact commit_bare h (paired_insertDocument h d)
  | assignNumber bare expected a => exact commit_bare h (hs.paired_assignNumber h ht bare a)
  | applyChange bare expected c => exact commit_bare h (paired_applyChange h bare c)

theorem issue?_bare (hsteps : step.Twins step' R) {reply : step.Reply} {reply' : step'.Reply}
    (h : Paired R reply reply') :
    (step.issue? reply).map (Prod.map id Number.bare)
      = (step'.issue? reply').map (Prod.map id Number.bare) := by
  cases h with
  | error f => cases hsteps <;> rfl
  | ok related =>
    cases hsteps with
    | allocate a =>
      refine congrArg (fun n => some (a.stream, n)) ?_
      change (Counter.bare _).number.bare = (Counter.bare _).number.bare
      rw [related]
    | assignNumber bare expected a => exact congrArg (fun n => some (a.stream, n)) related.2
    | _ => rfl

end Store

variable {α β γ δ : Type}

/-- Results of which both are failures or neither is. -/
def Agree {ε : Type} (x : Except ε α) (y : Except ε β) : Prop := x.isOk = y.isOk

namespace Program

/-- Programs that make requests alike as long as they are answered alike, and come to agreeing
results. -/
inductive Twin {ε : Type} : Program (Except ε α) → Program (Except ε β) → Prop
  | done {x : Except ε α} {y : Except ε β} (agree : Agree x y) : Twin (.done x) (.done y)
  | request {step step' : Step} {R : step.Result → step'.Result → Prop}
      {next : step.Reply → Program (Except ε α)} {next' : step'.Reply → Program (Except ε β)}
      (steps : step.Twins step' R)
      (rests : ∀ reply reply', Paired R reply reply' → Twin (next reply) (next' reply')) :
      Twin (.request step next) (.request step' next')

end Program

open Program

namespace Action

variable {step step' : Step} {R : step.Result → step'.Result → Prop}

theorem twin_ask_bind {f : step.Result → Action α} {g : step'.Result → Action β}
    (hsteps : step.Twins step' R) (hf : ∀ a b, R a b → Twin (f a).run (g b).run) :
    Twin (ask step >>= f).run (ask step' >>= g).run := by
  rw [run_ask_bind, run_ask_bind]
  refine .request hsteps fun reply reply' h => ?_
  cases h with
  | ok related => exact hf _ _ related
  | error e => exact .done rfl

theorem twin_bind_of_done {x : Action γ} (hx : ∃ reply, x.run = .done reply) {f : γ → Action α}
    {g : γ → Action β} (hf : ∀ a, Twin (f a).run (g a).run) :
    Twin (x >>= f).run (x >>= g).run := by
  obtain ⟨reply, hx⟩ := hx
  rw [run_bind, run_bind, hx]
  cases reply with
  | ok a => exact hf a
  | error e => exact .done rfl

theorem run_check (x : Except Violation Unit) : ∃ reply, (check x).run = .done reply := by
  cases x <;> exact ⟨_, rfl⟩

theorem run_compute (x : Except Overflow γ) : ∃ reply, (compute x).run = .done reply := by
  cases x <;> exact ⟨_, rfl⟩

theorem twin_found_bind {resource id : String} {S : γ → δ} {x y : Option γ}
    (hxy : x.map S = y.map S) {f : γ → Action α} {g : γ → Action β}
    (hf : ∀ a b, S a = S b → Twin (f a).run (g b).run) :
    Twin (found resource id x >>= f).run (found resource id y >>= g).run := by
  cases x with
  | none =>
    rw [Option.map_eq_none_iff.mp hxy.symm]
    exact .done rfl
  | some a =>
    obtain ⟨b, rfl, hba⟩ := Option.map_eq_some_iff.mp hxy.symm
    exact hf a b hba.symm

end Action

namespace Service

open Docket.Action

variable {service : Service} {call : Call} {step step' : Step} {tenant id : Id}

theorem run_scope (call : Call) : ∃ reply, (scope call).run = .done reply := by
  unfold scope
  split <;> exact ⟨_, rfl⟩

theorem run_start (call : Call) : ∃ reply, (start call).run = .done reply := by
  unfold start
  split <;> exact ⟨_, rfl⟩

theorem twin_begin {f g : Id → Action α} (hf : ∀ tenant, Twin (f tenant).run (g tenant).run) :
    Twin (scope call >>= fun tenant => start call >>= fun _ => f tenant).run
      (scope call >>= fun tenant => start call >>= fun _ => g tenant).run :=
  twin_bind_of_done (run_scope call) fun tenant => twin_bind_of_done (run_start call) fun _ =>
    hf tenant

theorem twin_begin_checked {x : Except Violation Unit} {f g : Id → Action α}
    (hf : ∀ tenant, Twin (f tenant).run (g tenant).run) :
    Twin (scope call >>= fun tenant => check x >>= fun _ => start call >>= fun _ => f tenant).run
      (scope call >>= fun tenant => check x >>= fun _ => start call >>= fun _ => g tenant).run :=
  twin_bind_of_done (run_scope call) fun tenant => twin_bind_of_done (run_check x) fun _ =>
    twin_bind_of_done (run_start call) fun _ => hf tenant

theorem twin_attempt_bind {R : step.Result → step'.Result → Prop} (hsteps : step.Twins step' R)
    {f : step.Result → Action α} {g : step'.Result → Action β}
    (hf : ∀ a b, R a b → Twin (f a).run (g b).run) :
    Twin (service.attempt step >>= f).run (service.attempt step' >>= g).run := by
  rw [run_attempt_bind, run_attempt_bind]
  induction service.attempts - 1 with
  | zero =>
    refine .request hsteps fun reply reply' h => ?_
    cases h with
    | ok related => exact hf _ _ related
    | error e => exact .done rfl
  | succ n ih =>
    rw [retrying_bind_succ, retrying_bind_succ]
    refine .request hsteps fun reply reply' h => ?_
    cases h with
    | ok related => exact hf _ _ related
    | error e =>
      cases e with
      | duplicate key => exact ih
      | _ => exact .done rfl

theorem twin_load_bind {f g : Document → Action α}
    (hf : ∀ d e, d.bare = e.bare → Twin (f d).run (g e).run) :
    Twin (load tenant id >>= f).run (load tenant id >>= g).run := by
  rw [load, Action.bind_assoc, Action.bind_assoc]
  exact twin_ask_bind (.findDocument tenant id) fun x y hxy => twin_found_bind hxy hf

theorem twin_liveCounter_bind {f g : Counter → Action α}
    (hf : ∀ c d, c.bare = d.bare → Twin (f c).run (g d).run) :
    Twin (liveCounter tenant id >>= f).run (liveCounter tenant id >>= g).run := by
  rw [liveCounter, Action.bind_assoc, Action.bind_assoc]
  exact twin_ask_bind (.findCounter tenant id) fun x y hxy => twin_found_bind hxy hf

theorem indistinct_of_bare {d e : Document} (h : d.bare = e.bare) : e.Indistinct d :=
  { status := congrArg (fun x => x.status) h
    lines := congrArg (fun x => x.lines) h
    party := congrArg (fun x => x.party.isSome) h
    documentType := congrArg (fun x => x.documentType.isSome) h
    number := by simpa [Document.bare] using congrArg (fun x => x.number.isSome) h }

theorem checkUnnumbered_bare {d e : Document} (h : d.bare = e.bare) :
    (∃ clash clash', checkUnnumbered d = .error clash ∧ checkUnnumbered e = .error clash') ∨
      checkUnnumbered d = .ok () ∧ checkUnnumbered e = .ok () := by
  have hstatus : d.status = e.status := congrArg (fun x => x.status) h
  have hnumber : d.number.isSome = e.number.isSome := (indistinct_of_bare h).number
  unfold checkUnnumbered
  rw [hstatus]
  split
  · exact Or.inl ⟨_, _, rfl, rfl⟩
  · cases hd : d.number with
    | none =>
      rw [hd, Option.isSome_none, eq_comm, Option.isSome_eq_false_iff,
        Option.isNone_iff_eq_none] at hnumber
      rw [hnumber]
      exact Or.inr ⟨rfl, rfl⟩
    | some n =>
      rw [hd, Option.isSome_some, eq_comm, Option.isSome_iff_exists] at hnumber
      obtain ⟨m, hm⟩ := hnumber
      rw [hm]
      exact Or.inl ⟨_, _, rfl, rfl⟩

/-- A call makes its requests alike on stores that differ in configurations only. -/
theorem twin_serve (service : Service) (call : Call) (request : Request) :
    Twin (service.serve call request).run (service.serve call request).run := by
  cases request with
  | generateNumber documentType series =>
    exact twin_begin_checked fun tenant => twin_ask_bind (.acquire _) fun _ _ _ =>
      twin_attempt_bind (.allocate _) fun _ _ _ => .done rfl
  | createCounter new =>
    refine twin_begin_checked fun tenant =>
      twin_ask_bind (.findCounterByKey tenant new.key) fun x y hxy => ?_
    cases x with
    | some c =>
      obtain ⟨d, rfl, -⟩ := Option.map_eq_some_iff.mp hxy.symm
      exact .done rfl
    | none =>
      rw [Option.map_eq_none_iff.mp hxy.symm]
      refine .request (.insertCounter _) fun reply reply' h => ?_
      cases h with
      | ok => exact .done rfl
      | error f => exact .done rfl
  | updateCounter id settings =>
    refine twin_begin_checked fun tenant => twin_liveCounter_bind fun c d hcd => ?_
    have hid : c.id = d.id := congrArg (fun x => x.id) hcd
    exact twin_ask_bind (.updateSettings hid rfl) fun _ _ _ => .done rfl
  | deleteCounter id =>
    refine twin_begin fun tenant => twin_liveCounter_bind fun c d hcd =>
      twin_ask_bind (.retireCounter tenant id _) fun x y hxy => ?_
    subst hxy
    cases x <;> exact .done rfl
  | getCounter key =>
    exact twin_begin fun tenant =>
      twin_ask_bind (.findCounterByKey tenant key) fun x y hxy =>
        twin_found_bind hxy fun _ _ _ => .done rfl
  | listCounters =>
    exact twin_begin fun tenant => twin_ask_bind (.listCounters tenant) fun _ _ _ => .done rfl
  | createDocument new =>
    exact twin_begin_checked fun tenant =>
      twin_ask_bind (.insertDocument _) fun _ _ _ => .done rfl
  | getDocument id =>
    exact twin_begin fun tenant => twin_load_bind fun _ _ _ => .done rfl
  | assignNumber id series =>
    refine twin_begin fun tenant => twin_load_bind fun d e hde => ?_
    have htype : numberingType d = numberingType e :=
      show numberingType d.bare = _ by rw [hde]; rfl
    have hversion : d.version = e.version := congrArg (fun x => x.version) hde
    have hpending : ∀ version stamp, { d with version := version, updated := stamp }.bare
        = { e with version := version, updated := stamp }.bare := fun version stamp =>
      congrArg (fun x : Document => { x with version := version, updated := stamp }) hde
    rcases checkUnnumbered_bare hde with ⟨clash, clash', hd, he⟩ | ⟨hd, he⟩
    · rw [hd, he]
      exact .done rfl
    · rw [hd, he, htype, hversion]
      cases numberingType e with
      | error violation => exact .done rfl
      | ok documentType =>
        exact twin_bind_of_done (run_compute _) fun version =>
          twin_ask_bind (.acquire _) fun _ _ _ =>
            twin_attempt_bind (.assignNumber (hpending _ _) _ _) fun _ _ _ => .done rfl
  | changeStatus id target reason =>
    refine twin_begin fun tenant => twin_load_bind fun d e hde => ?_
    have hversion : d.version = e.version := congrArg (fun x => x.version) hde
    have hchange : ∀ version, service.change call d target reason version
        = service.change call e target reason version := fun version =>
      show service.change call d.bare target reason version = _ by rw [hde]; rfl
    have hchanged : ∀ version, (service.changed call d target version).bare
        = (service.changed call e target version).bare := fun version =>
      congrArg (fun x => service.changed call x target version) hde
    rw [(indistinct_of_bare hde).checkChange_eq]
    refine twin_bind_of_done (run_compute _) fun verdict => ?_
    cases verdict with
    | rejected objection => exact .done rfl
    | valid =>
      rw [hversion]
      refine twin_bind_of_done (run_compute _) fun version => ?_
      rw [hchange]
      exact twin_ask_bind (.applyChange (hchanged version) _ _) fun _ _ _ => .done rfl
  | availableTransitions id =>
    exact twin_begin fun tenant => twin_ask_bind (.findStatus tenant id) fun _ _ _ => .done rfl
  | statusHistory id =>
    exact twin_begin fun tenant => twin_ask_bind (.listChanges tenant id) fun _ _ _ => .done rfl
  | validateTransition id target =>
    refine twin_begin fun tenant => twin_load_bind fun d e hde => ?_
    rw [(indistinct_of_bare hde).checkChange_eq]
    exact twin_bind_of_done (run_compute _) fun _ => .done rfl

end Service

end Docket
