import Docket.Proofs.Conduct

/-! # Numbers in answers

A call that hands out numbers does so exactly where one of its requests took a number from a
stream. That request is its last one, and the number is in its answer.
-/

namespace Docket

open Store Issuing Simulation

variable {α β : Type}

namespace Step

/-- A reply that some store gives, or a failure for any other reason. -/
def Possible (step : Step) (reply : step.Reply) : Prop :=
  (∃ s : Store, (s.perform step).1 = reply) ∨ ∃ f, reply = .error f

theorem Possible.numbered {d e : Document} {expected : Int} {a : Allocation} {n : Number}
    (h : (Step.assignNumber d expected a).Possible (.ok (e, n))) :
    e = { d with number := some n.formatted } := by
  obtain ⟨s, h⟩ | ⟨f, h⟩ := h
  · obtain ⟨_, _, _, _, he, _⟩ := assignNumber_eq_ok_iff.mp (commit_ok h)
    exact he
  · cases h

end Step

theorem Store.Replies.possible {s t : Store} {step : Step} {reply : step.Reply}
    (h : s.Replies step reply t) : step.Possible reply := by
  cases h with
  | served => exact Or.inl ⟨s, rfl⟩
  | refused f => exact Or.inr ⟨f, rfl⟩

namespace Service

/-- An outcome that hands a number of a stream to the caller, and reports it. -/
inductive Hands (service : Service) (call : Call) :
    (request : Request) → Outcome request.Answer → Stream → Number → Prop
  | generated {tenant documentType : Id} {series : String} {number : Number}
      (scope : call.caller.tenant = some tenant) :
      Hands service call (.generateNumber documentType series)
        ⟨number, [.numberAllocated (.of tenant number (service.stamp call))]⟩
        ⟨tenant, documentType, series⟩ number
  | assigned {tenant id documentType : Id} {series : String} {d : Document} {number : Number}
      (scope : call.caller.tenant = some tenant) (typed : d.documentType = some documentType)
      (numbered : d.number = some number.formatted) :
      Hands service call (.assignNumber id series)
        ⟨d, [.numberAllocated (.of tenant number (service.stamp call)),
          .numberAssigned (.of d (service.stamp call))]⟩
        ⟨tenant, documentType, series⟩ number

end Service

namespace Request

def asksNumber : Request → Bool
  | generateNumber _ _ => true
  | assignNumber _ _ => true
  | _ => false

end Request

namespace Service

/-- The answers of a call, with the number that it took. -/
inductive Reports (service : Service) (call : Call) (request : Request) :
    Except Failure (Outcome request.Answer) → Option (Stream × Number) → Prop
  | handed {outcome : Outcome request.Answer} {stream : Stream} {number : Number}
      (hands : Hands service call request outcome stream number) :
      Reports service call request (.ok outcome) (some (stream, number))
  | unasked {outcome : Outcome request.Answer} (unasked : request.asksNumber = false) :
      Reports service call request (.ok outcome) none
  | failed (failure : Failure) : Reports service call request (.error failure) none

end Service

namespace Request

variable {service : Service} {call : Call} {tenant : Id} {request : Request}
  {told : List Response} {step : Step}

/-- The numbers that a call was given with what it has been told. -/
def takenFrom (told : List Response) : List (Stream × Number) :=
  told.filterMap fun r => r.step.issue? r.reply

theorem Prompts.takenFrom_eq_nil (h : request.Prompts service call tenant told step) :
    takenFrom told = [] := by
  refine List.filterMap_eq_nil_iff.mpr fun r hr => ?_
  rcases h.told_cases hr with ⟨hread, -⟩ | ⟨key, hreply⟩
  · exact Step.issue?_of_allocation? (Scene.allocation?_of_read hread) _
  · rw [hreply]
    exact Step.issue?_error _ _

theorem Prompts.takenFrom_append (h : request.Prompts service call tenant told step)
    {reply : step.Reply} :
    takenFrom (told ++ [⟨step, reply⟩]) = (step.issue? reply).toList := by
  rw [takenFrom, List.filterMap_append, ← takenFrom, h.takenFrom_eq_nil]
  cases hissue : step.issue? reply <;> simp [hissue]

theorem Declines.takenFrom_eq_nil {f : Failure}
    (h : request.Declines service call tenant told f) : takenFrom told = [] := by
  refine List.filterMap_eq_nil_iff.mpr fun r hr => ?_
  rcases h.told_cases hr with ⟨hread, -⟩ | ⟨id, stamp, rfl⟩
  · exact Step.issue?_of_allocation? (Scene.allocation?_of_read hread) _
  · rfl

/-- A call takes a number with its last request, if it takes one, and answers that number. -/
theorem Concludes.reports {a : Except Failure (Outcome request.Answer)}
    (h : request.Concludes service call told a) (htold : ∀ r ∈ told, r.step.Possible r.reply) :
    ∃ taken, takenFrom told = Option.toList taken ∧ service.Reports call request a taken := by
  cases h with
  | refused => exact ⟨none, rfl, .failed _⟩
  | declined declines => exact ⟨none, declines.takenFrom_eq_nil, .failed _⟩
  | failed f prompted =>
    exact ⟨none, prompted.takenFrom_append.trans (by rw [Step.issue?_error]), .failed _⟩
  | @answered tenant told step a outcome acts prompted answers =>
    refine ⟨step.issue? (.ok a), prompted.takenFrom_append, ?_⟩
    have hlast : step.Possible (.ok a) :=
      htold ⟨step, .ok a⟩ (List.mem_append_right _ (List.mem_singleton_self _))
    cases answers with
    | generated =>
      cases prompted
      exact .handed (.generated acts.scope)
    | assigned =>
      cases prompted with
      | assign unnumbered typed =>
        obtain rfl := hlast.numbered
        exact .handed (.assigned acts.scope typed rfl)
    | _ => exact .unasked rfl

end Request

namespace Course

variable {ι : Type} {β : ι → Type} [DecidableEq ι]

/-- Numbers that calls have taken from streams, in the order in which that was stored. -/
def issued (σ : Course ι β) : List (ι × Stream × Number) :=
  σ.trace.filterMap fun (i, e) => (e.step.issue? e.reply).map (i, ·)

def taken (σ : Course ι β) (i : ι) : List (Stream × Number) :=
  (σ.issued.filter fun p => p.1 = i).map Prod.snd

variable {σ τ : Course ι β} {i j : ι} {e : Exchange} {p : Program (β i)}
  {R : (i : ι) → β i → Option (Stream × Number) → Prop}

theorem issued_reply :
    (σ.reply i e p).issued = σ.issued ++ ((e.step.issue? e.reply).map (i, ·)).toList := by
  simp only [issued, reply_trace, List.filterMap_append, List.filterMap_cons, List.filterMap_nil]
  cases e.step.issue? e.reply <;> rfl

theorem mem_issued_iff {x : Stream × Number} : (i, x) ∈ σ.issued ↔ x ∈ σ.taken i := by
  simp only [taken, List.mem_map, List.mem_filter, decide_eq_true_eq]
  constructor
  · exact fun h => ⟨_, ⟨h, rfl⟩, rfl⟩
  · rintro ⟨⟨_, _⟩, ⟨h, rfl⟩, rfl⟩
    exact h

theorem taken_reply_self :
    (σ.reply i e p).taken i = σ.taken i ++ (e.step.issue? e.reply).toList := by
  simp only [taken, issued_reply, List.filter_append, List.map_append]
  cases e.step.issue? e.reply with
  | none => rfl
  | some x => simp

theorem taken_reply_of_ne (h : j ≠ i) : (σ.reply i e p).taken j = σ.taken j := by
  simp only [taken, issued_reply, List.filter_append, List.map_append]
  cases e.step.issue? e.reply with
  | none => simp
  | some x => simp [h.symm]

theorem taken_eq (σ : Course ι β) (i : ι) : σ.taken i = Request.takenFrom (σ.told i) := by
  simp only [taken, issued, Request.takenFrom, told, own]
  induction σ.trace with
  | nil => rfl
  | cons p trace ih =>
    obtain ⟨j, e⟩ := p
    by_cases hj : j = i
    · cases hissue : e.step.issue? e.reply <;> simp [hj, hissue, ih]
    · cases hissue : e.step.issue? e.reply <;> simp [hj, hissue, ih]

/-- A call that has taken nothing answers no number; one that has taken a number is at its end, with
an answer that fits the number. -/
def Settled (R : (i : ι) → β i → Option (Stream × Number) → Prop) (σ : Course ι β) (i : ι) :
    Prop :=
  (σ.taken i = [] ∧ ∀ a, σ.rest i = .done a → R i a none) ∨
    ∃ x a, σ.taken i = [x] ∧ σ.rest i = .done a ∧ R i a (some x)

theorem Settled.answer (h : σ.Settled R i) {a : β i} (ha : σ.rest i = .done a) :
    R i a (σ.taken i).head? := by
  rcases h with ⟨htaken, hnone⟩ | ⟨x, b, htaken, hdone, hR⟩
  · rw [htaken]
    exact hnone a ha
  · rw [hdone] at ha
    rw [htaken, ← Program.done.inj ha]
    exact hR

/-- No call takes two numbers. -/
theorem nodup_issuers (h : ∀ i, σ.Settled R i) : (σ.issued.map Prod.fst).Nodup := by
  rw [List.nodup_iff_count_le_one]
  intro i
  have hcount : (σ.issued.map Prod.fst).count i = (σ.taken i).length := by
    rw [List.count, List.countP_map, List.countP_eq_length_filter, taken, List.length_map]
    rfl
  rw [hcount]
  rcases h i with ⟨htaken, _⟩ | ⟨x, _, htaken, _⟩
  · rw [htaken]; exact Nat.zero_le 1
  · rw [htaken]; exact Nat.le_refl 1

variable {service : Service} {jobs : ι → Job} {σ : Course ι fun i => (jobs i).Answer}

/-- Answers of calls fit the numbers that they have taken. -/
def Reported (service : Service) (jobs : ι → Job) (σ : Course ι fun i => (jobs i).Answer) : Prop :=
  ∀ i, σ.Settled (fun i => Service.Reports service (jobs i).call (jobs i).request) i

theorem reported_of_reaches {s : Store}
    (h : Reaches (.start s fun i => (jobs i).program service) σ) : Reported service jobs σ := by
  intro i
  have hσ := conducted_of_reaches h
  unfold Settled
  rw [taken_eq]
  cases hrest : σ.rest i with
  | request step next =>
    obtain ⟨tenant, -, prompted⟩ := hσ.prompts hrest
    exact Or.inl ⟨prompted.takenFrom_eq_nil, nofun⟩
  | done a =>
    obtain ⟨taken, htaken, hreports⟩ := (hσ.concludes hrest).reports fun r hr => by
      obtain ⟨e, he, rfl⟩ := exists_mem_of_told hr
      exact (hσ.replied i e he).possible
    cases taken with
    | none => exact Or.inl ⟨htaken, fun b hb => Program.done.inj hb ▸ hreports⟩
    | some x => exact Or.inr ⟨x, a, htaken, rfl, hreports⟩

theorem Reported.answered (h : Reported service jobs σ) {i : ι} {stream : Stream} {n : Number}
    (hn : (i, stream, n) ∈ σ.issued) : ∃ outcome, σ.rest i = .done (.ok outcome) ∧
      Service.Hands service (jobs i).call (jobs i).request outcome stream n := by
  replace hn := mem_issued_iff.mp hn
  rcases h i with ⟨hnone, -⟩ | ⟨x, a, htaken, hdone, hreports⟩
  · rw [hnone] at hn
    exact absurd hn List.not_mem_nil
  · rw [htaken] at hn
    obtain rfl := List.mem_singleton.mp hn
    cases hreports with
    | handed hands => exact ⟨_, hdone, hands⟩

theorem Reported.handed (h : Reported service jobs σ) {i : ι}
    {outcome : Outcome (jobs i).request.Answer} (hjob : (jobs i).request.asksNumber = true)
    (hdone : σ.rest i = .done (.ok outcome)) : ∃ stream n, (i, stream, n) ∈ σ.issued ∧
      Service.Hands service (jobs i).call (jobs i).request outcome stream n := by
  have hreports := (h i).answer hdone
  generalize htaken : (σ.taken i).head? = taken at hreports
  cases hreports with
  | handed hands => exact ⟨_, _, mem_issued_iff.mpr (List.mem_of_head? htaken), hands⟩
  | unasked hunasked => cases hjob.symm.trans hunasked

theorem Reported.failed (h : Reported service jobs σ) {i : ι} {f : Failure}
    (hdone : σ.rest i = .done (.error f)) (stream : Stream) (n : Number) :
    (i, stream, n) ∉ σ.issued := by
  intro hn
  obtain ⟨outcome, hok, -⟩ := h.answered hn
  cases Program.done.inj (hdone.symm.trans hok)

end Course

end Docket
