import Docket.Proofs.Failure
import Docket.Proofs.Lookup
import Docket.Proofs.Motion

/-! # What calls demand of the store

Each request of a call follows from what the call is for and from what stores have told it before.
A counter that a call writes is one that it has found, and a document that it changes is one that it
has loaded; both are still there when they are written, since no row is ever removed.
-/

namespace Docket

open Store Issuing Simulation

namespace Issuing

theorem checkDocumentType_eq_ok_iff {id : Id} :
    checkDocumentType id = .ok () ↔ id.isNil = false := by
  unfold checkDocumentType
  cases id.isNil <;> simp

end Issuing

namespace Request

open Service

/-- What a call of a tenant asks of the store for a request, given the stores that have replied to
it before. -/
def Demands (service : Service) (call : Call) (tenant : Id) (seen : Store → Prop) :
    Request → Step → Prop
  | generateNumber documentType series, .acquire stream => stream = ⟨tenant, documentType, series⟩
  | generateNumber documentType series, .allocate a =>
    documentType.isNil = false ∧ a = service.allocation call ⟨tenant, documentType, series⟩
  | createCounter new, .findCounterByKey owner key => owner = tenant ∧ key = new.key
  | createCounter new, .insertCounter c =>
    checkNewCounter new = .ok () ∧ c = service.newCounter call tenant new
  | updateCounter counter _, .findCounter owner id => owner = tenant ∧ id = counter
  | updateCounter counter settings, .updateSettings c =>
    checkSettings settings = .ok () ∧ ∃ s b, seen s ∧ s.findCounter tenant counter = .ok (some b) ∧
      c = { b with settings := settings, updated := service.stamp call }
  | deleteCounter counter, .findCounter owner id => owner = tenant ∧ id = counter
  | deleteCounter counter, .retireCounter owner id stamp =>
    owner = tenant ∧ id = counter ∧ stamp = service.stamp call
  | getCounter wanted, .findCounterByKey owner key => owner = tenant ∧ key = wanted
  | listCounters, .listCounters owner => owner = tenant
  | createDocument new, .insertDocument d =>
    checkReferences new = .ok () ∧ d = service.newDocument call tenant new
  | getDocument document, .findDocument owner id => owner = tenant ∧ id = document
  | assignNumber document _, .findDocument owner id => owner = tenant ∧ id = document
  | assignNumber _ series, .acquire stream =>
    ∃ documentType, stream = ⟨tenant, documentType, series⟩
  | assignNumber document series, .assignNumber d expected a =>
    ∃ s b documentType, seen s ∧ s.findDocument tenant document = .ok (some b) ∧
      checkUnnumbered b = .ok () ∧ b.documentType = some documentType ∧
      d = { b with version := b.version + 1, updated := service.stamp call } ∧
      expected = b.version ∧ a = service.allocation call ⟨tenant, documentType, series⟩
  | changeStatus document _ _, .findDocument owner id => owner = tenant ∧ id = document
  | changeStatus document target reason, .applyChange d expected c =>
    ∃ s b, seen s ∧ s.findDocument tenant document = .ok (some b) ∧
      b.checkChange target = .ok .valid ∧
      d = service.changed call b target (b.version + 1) ∧ expected = b.version ∧
      c = service.change call b target reason (b.version + 1)
  | availableTransitions document, .findStatus owner id => owner = tenant ∧ id = document
  | statusHistory document, .listChanges owner id => owner = tenant ∧ id = document
  | validateTransition document _, .findDocument owner id => owner = tenant ∧ id = document
  | _, _ => False

end Request

namespace Job

/-- What a job asks of the store: nothing without a tenant. -/
def Demands (service : Service) (job : Job) (seen : Store → Prop) (step : Step) : Prop :=
  ∃ tenant, job.call.caller.tenant = some tenant ∧
    job.request.Demands service job.call tenant seen step

end Job

/-- A call demands what it does because of what stores have told it. -/
theorem Request.Prompts.demands {service : Service} {call : Call} {tenant : Id} {request : Request}
    {told : List Response} {step : Step} {seen : Store → Prop}
    (h : request.Prompts service call tenant told step)
    (htold : ∀ r ∈ told, ∃ s t, seen s ∧ s.Replies r.step r.reply t) :
    request.Demands service call tenant seen step := by
  cases h with
  | opening checked =>
    cases request with
    | generateNumber | listCounters => exact rfl
    | createDocument => exact ⟨checked, rfl⟩
    | _ => exact ⟨rfl, rfl⟩
  | allocate checked => exact ⟨checkDocumentType_eq_ok_iff.mp checked, rfl⟩
  | insert checked => exact ⟨checked, rfl⟩
  | configure checked =>
    obtain ⟨s, t, hs, hreplies⟩ := htold _ List.mem_cons_self
    exact ⟨checked, s, _, hs, congrArg Prod.fst hreplies.perform_eq, rfl⟩
  | retire => exact ⟨rfl, rfl, rfl⟩
  | lock => exact ⟨_, rfl⟩
  | assign unnumbered typed =>
    obtain ⟨s, t, hs, hreplies⟩ := htold _ List.mem_cons_self
    exact ⟨s, _, _, hs, congrArg Prod.fst hreplies.perform_eq, unnumbered, typed, rfl, rfl, rfl⟩
  | change allowed =>
    obtain ⟨s, t, hs, hreplies⟩ := htold _ List.mem_cons_self
    exact ⟨s, _, hs, congrArg Prod.fst hreplies.perform_eq, allowed, rfl, rfl, rfl⟩

namespace Store

variable {s t : Store} {step : Step} {reply : step.Reply} {r : CounterRow}

theorem Replies.persists (h : s.Replies step reply t) (hs : s.Keyed) (hr : r ∈ s.counters) :
    ∃ q ∈ t.counters, r.Persists q := by
  let year := ((Scene.allocation? step).map Allocation.year).getD 0
  have hyear : ∀ a, Scene.allocation? step = some a → a.year = year := by
    intro a ha
    simp only [year, ha, Option.map_some, Option.getD_some]
  obtain ⟨q, hq, hfares⟩ := h.fares hs hyear hr
  exact ⟨q, hq, hfares.persists⟩

end Store

namespace Course

variable {ι : Type} {β : ι → Type} {σ τ : Course ι β} {i j : ι} {e : Exchange}
  {p : Program (β i)}

def seen (σ : Course ι β) (i : ι) (s : Store) : Prop := ∃ e, (i, e) ∈ σ.trace ∧ e.before = s

/-- All that the stores before have said of counters still holds of the rows that are there. -/
def Recalls (σ : Course ι β) : Prop :=
  ∀ i s, σ.seen i s → ∀ r ∈ s.counters, ∃ q ∈ σ.store.counters, r.Persists q

variable [DecidableEq ι]

theorem persists_of_reaches (hs : σ.store.Keyed) (h : Reaches σ τ) :
    ∀ r ∈ σ.store.counters, ∃ q ∈ τ.store.counters, r.Persists q := by
  suffices τ.store.Keyed ∧ ∀ r ∈ σ.store.counters, ∃ q ∈ τ.store.counters, r.Persists q from this.2
  induction h with
  | refl => exact ⟨hs, fun r hr => ⟨r, hr, .refl r⟩⟩
  | tail _ hmove ih =>
    obtain ⟨-, hreplies⟩ := hmove
    refine ⟨hreplies.keyed ih.1, fun r hr => ?_⟩
    obtain ⟨q, hq, hrq⟩ := ih.2 r hr
    obtain ⟨p, hp, hqp⟩ := hreplies.persists ih.1 hq
    exact ⟨p, hp, hrq.trans hqp⟩

theorem Move.recalls (h : Move σ τ) (hs : σ.store.Keyed) (hσ : σ.Recalls) : τ.Recalls := by
  obtain ⟨hrest, hreplies⟩ := h
  rename_i i step next reply t
  rintro j s ⟨e, he, rfl⟩ r hr
  rcases List.mem_append.mp he with he | he
  · obtain ⟨q, hq, hrq⟩ := hσ j e.before ⟨e, he, rfl⟩ r hr
    obtain ⟨p, hp, hqp⟩ := hreplies.persists hs hq
    exact ⟨p, hp, hrq.trans hqp⟩
  · cases List.mem_singleton.mp he
    exact hreplies.persists hs hr

end Course

section Run

open Course

variable {ι : Type} [DecidableEq ι] {service : Service} {jobs : ι → Job} {s : Store}
  {σ τ : Course ι fun i => (jobs i).Answer}

/-- Calls that ask for what they have reason to ask for. -/
structure Attentive (service : Service) (jobs : ι → Job)
    (σ : Course ι fun i => (jobs i).Answer) : Prop extends Conducted service jobs σ where
  keyed : σ.store.Keyed
  recalls : σ.Recalls

theorem attentive_start (hs : s.Keyed) :
    Attentive service jobs (.start s fun i => (jobs i).program service) :=
  { conducted_start s with
    keyed := hs
    recalls := fun _ _ ⟨_, he, _⟩ => absurd he List.not_mem_nil }

theorem Attentive.demanded (hσ : Attentive service jobs σ) {i : ι} {step : Step}
    {next : step.Reply → Program (jobs i).Answer} (hrest : σ.rest i = .request step next) :
    (jobs i).Demands service (σ.seen i) step := by
  obtain ⟨tenant, acts, prompted⟩ := hσ.prompts hrest
  refine ⟨tenant, acts.scope, prompted.demands fun r hr => ?_⟩
  obtain ⟨e, he, rfl⟩ := exists_mem_of_told hr
  exact ⟨e.before, e.after, ⟨e, he, rfl⟩, hσ.replied i e he⟩

theorem Attentive.exists_counter (hσ : Attentive service jobs σ) {i : ι} (hs : σ.seen i s)
    {tenant id : Id} {c : Counter} (hc : s.findCounter tenant id = .ok (some c)) :
    c.id = id ∧ ∃ q ∈ σ.store.counters, q.id = id ∧ q.tenant = tenant := by
  obtain ⟨hmem, rfl, -⟩ := mem_of_findCounter hc
  obtain ⟨hmem, htenant, -⟩ := mem_liveCounters.mp hmem
  obtain ⟨q, hq, hpersists⟩ := hσ.recalls i s hs _ hmem
  exact ⟨rfl, q, hq, hpersists.id, (congrArg Stream.tenant hpersists.stream).trans htenant⟩

theorem Attentive.move (h : Move σ τ) (hσ : Attentive service jobs σ) :
    Attentive service jobs τ := by
  have hconducted := hσ.toConducted.move h
  have hrecalls := h.recalls hσ.keyed hσ.recalls
  obtain ⟨-, hreplies⟩ := h
  exact ⟨hconducted, hreplies.keyed hσ.keyed, hrecalls⟩

theorem attentive_of_reaches (hs : s.Keyed)
    (h : Reaches (.start s fun i => (jobs i).program service) σ) : Attentive service jobs σ := by
  induction h with
  | refl => exact attentive_start hs
  | tail _ hmove ih => exact ih.move hmove

end Run

end Docket
