import Docket.Proofs.Demands
import Docket.Proofs.Origins
import Docket.Proofs.Portion

/-! # Tenants by themselves

The calls of a tenant, amid those of others, are answered and leave the tenant's rows as if they had
been made alone on these rows. So nothing that others do can be told from there.
-/

namespace Docket

open Store Issuing Simulation

namespace Store

variable {s t : Store} {step : Step} {tenant other id : Id} {a : Allocation}

/-- The reply to a request, which may be refused, and what it leaves of the store. -/
def answer (s : Store) (step : Step) : Option StoreFailure → step.Reply × Store
  | none => s.perform step
  | some failure => (.error failure, s)

theorem replies_answer (s : Store) (step : Step) (refusal : Option StoreFailure) :
    s.Replies step (s.answer step refusal).1 (s.answer step refusal).2 := by
  cases refusal with
  | none => exact .served
  | some failure => exact .refused failure

theorem Replies.exists_answer {reply : step.Reply} (h : s.Replies step reply t) :
    ∃ refusal, s.answer step refusal = (reply, t) := by
  cases h with
  | served => exact ⟨none, rfl⟩
  | refused failure => exact ⟨some failure, rfl⟩

theorem Keyed.answer_portion (hs : s.Keyed) (hlines : s.Anchored) (hstep : step.Within s tenant)
    (hfresh : ∀ id ∈ step.fresh?, s.Reserves tenant id) (refusal : Option StoreFailure) :
    (s.portion tenant).answer step refusal
      = ((s.answer step refusal).1, (s.answer step refusal).2.portion tenant) := by
  cases refusal with
  | none => exact hs.perform_portion hlines hstep hfresh
  | some failure => rfl

theorem Keyed.portion_answer_of_ne (hs : s.Keyed) (hstep : step.Within s other)
    (hne : other ≠ tenant) (refusal : Option StoreFailure) :
    (s.answer step refusal).2.portion tenant = s.portion tenant := by
  cases refusal with
  | none => exact hs.portion_perform_of_ne hstep hne
  | some failure => rfl

end Store

namespace Step

variable {s : Store} {step : Step} {tenant : Id} {a : Allocation}

theorem fresh?_of_allocation? (h : Scene.allocation? step = some a) :
    step.fresh? = some a.fresh := by
  cases step with
  | allocate | assignNumber =>
    obtain rfl := Option.some.inj h
    rfl
  | _ => cases h

theorem Within.stream (h : step.Within s tenant) (ha : Scene.allocation? step = some a) :
    a.stream.tenant = tenant := by
  cases step with
  | allocate =>
    obtain rfl := Option.some.inj ha
    exact h
  | assignNumber =>
    obtain rfl := Option.some.inj ha
    exact h.2
  | _ => cases ha

end Step

namespace Store

variable {s t : Store} {step : Step} {reply : step.Reply} {tenant other id : Id}

theorem Replies.reserves (h : s.Replies step reply t) (hs : s.Keyed) (hstep : step.Within s other)
    (hid : step.fresh? = some id → other = tenant) (hreserves : s.Reserves tenant id) :
    t.Reserves tenant id := by
  constructor
  · intro r hr hri
    cases h.origin hs hr with
    | kept stored => exact hreserves.1 r stored hri
    | inserted request row =>
      subst request row hri
      exact hstep.trans (hid rfl)
    | @configured c q request stored row =>
      subst row
      exact hreserves.1 q stored hri
    | @retired owner id stamp q request stored row =>
      subst row
      exact hreserves.1 q stored hri
    | first request row =>
      subst row hri
      exact (hstep.stream request).trans (hid (Step.fresh?_of_allocation? request))
    | @next a c request stored stream row =>
      subst row
      have htenant : (a.next c).tenant = c.tenant :=
        congrArg Stream.tenant (Allocation.next_stream a c)
      exact htenant.trans (hreserves.1 _ stored ((Allocation.next_id a c).symm.trans hri))
  · intro r hr hri
    cases h.document_origin hs hr with
    | kept stored id tenant => exact tenant.trans (hreserves.2 _ stored (id.symm.trans hri))
    | inserted request row =>
      subst request row hri
      exact hstep.trans (hid rfl)

end Store

namespace Job

variable {service : Service} {job : Job} {seen : Store → Prop} {step : Step}

theorem Demands.fresh (h : job.Demands service seen step) {id : Id} (hid : step.fresh? = some id) :
    id = job.call.fresh := by
  obtain ⟨call, request⟩ := job
  obtain ⟨tenant, -, h⟩ := h
  cases step with
  | insertCounter c =>
    obtain rfl := Option.some.inj hid
    cases request with
    | createCounter new => exact congrArg Counter.id h.2
    | _ => exact h.elim
  | allocate a =>
    obtain rfl := Option.some.inj hid
    cases request with
    | generateNumber documentType series => exact congrArg Allocation.fresh h.2
    | _ => exact h.elim
  | insertDocument d =>
    obtain rfl := Option.some.inj hid
    cases request with
    | createDocument new => exact congrArg Document.id h.2
    | _ => exact h.elim
  | assignNumber d expected a =>
    obtain rfl := Option.some.inj hid
    cases request with
    | assignNumber document series =>
      obtain ⟨s, b, documentType, -, -, -, -, -, -, rfl⟩ := h
      rfl
    | _ => exact h.elim
  | _ => cases hid

end Job

section Run

open Course

variable {ι : Type} [DecidableEq ι] {service : Service} {jobs : ι → Job}
  {σ : Course ι fun i => (jobs i).Answer}

theorem Attentive.within (hσ : Attentive service jobs σ) {i : ι} {step : Step}
    {next : step.Reply → Program (jobs i).Answer} (hrest : σ.rest i = .request step next) :
    ∃ tenant, (jobs i).call.caller.tenant = some tenant ∧ step.Within σ.store tenant := by
  obtain ⟨tenant, htenant, h⟩ := hσ.demanded hrest
  refine ⟨tenant, htenant, ?_⟩
  generalize (jobs i).request = request at h
  cases step with
  | acquire => exact trivial
  | findCounter owner id =>
    cases request with
    | updateCounter | deleteCounter => exact h.1
    | _ => exact h.elim
  | findCounterByKey owner key =>
    cases request with
    | createCounter | getCounter => exact h.1
    | _ => exact h.elim
  | listCounters owner =>
    cases request with
    | listCounters => exact h
    | _ => exact h.elim
  | insertCounter c =>
    cases request with
    | createCounter new => exact congrArg Counter.tenant h.2
    | _ => exact h.elim
  | updateSettings c =>
    cases request with
    | updateCounter id settings =>
      obtain ⟨-, s, b, hs, hb, rfl⟩ := h
      obtain ⟨rfl, q, hq, hqid, hqt⟩ := hσ.exists_counter hs hb
      intro r hr hid
      rw [hσ.keyed.counter_eq hr hq (hid.trans hqid.symm)]
      exact hqt
    | _ => exact h.elim
  | retireCounter owner id stamp =>
    cases request with
    | deleteCounter => exact h.1
    | _ => exact h.elim
  | allocate a =>
    cases request with
    | generateNumber documentType series => exact congrArg (fun b => b.stream.tenant) h.2
    | _ => exact h.elim
  | findDocument owner id =>
    cases request with
    | getDocument | assignNumber | changeStatus | validateTransition => exact h.1
    | _ => exact h.elim
  | findStatus owner id =>
    cases request with
    | availableTransitions => exact h.1
    | _ => exact h.elim
  | listChanges owner id =>
    cases request with
    | statusHistory => exact h.1
    | _ => exact h.elim
  | insertDocument d =>
    cases request with
    | createDocument new => exact congrArg Document.tenant h.2
    | _ => exact h.elim
  | assignNumber d expected a =>
    cases request with
    | assignNumber document series =>
      obtain ⟨s, b, documentType, -, hb, -, -, rfl, -, rfl⟩ := h
      exact ⟨(of_findDocument hb).2.1, rfl⟩
    | _ => exact h.elim
  | applyChange d expected c =>
    cases request with
    | changeStatus document target reason =>
      obtain ⟨s, b, -, hb, -, rfl, -, rfl⟩ := h
      exact ⟨(of_findDocument hb).2.1, rfl⟩
    | _ => exact h.elim

end Run

namespace Course

variable {ι : Type} {β : ι → Type} [DecidableEq ι] {σ τ : Course ι β} {i : ι}

def take (σ : Course ι β) (turn : ι × Option StoreFailure) : Course ι β :=
  match σ.rest turn.1 with
  | .done _ => σ
  | .request step next =>
    let (reply, t) := σ.store.answer step turn.2
    σ.reply turn.1 ⟨σ.store, step, reply, t⟩ (next reply)

def play (σ : Course ι β) (turns : List (ι × Option StoreFailure)) : Course ι β :=
  turns.foldl take σ

theorem take_of_done {a : β i} (h : σ.rest i = .done a) (refusal : Option StoreFailure) :
    σ.take (i, refusal) = σ := by
  simp only [take, h]

theorem take_of_request {step : Step} {next : step.Reply → Program (β i)}
    (h : σ.rest i = .request step next) (refusal : Option StoreFailure) :
    σ.take (i, refusal)
      = σ.reply i ⟨σ.store, step, (σ.store.answer step refusal).1, (σ.store.answer step refusal).2⟩
        (next (σ.store.answer step refusal).1) := by
  simp only [take, h]

theorem reaches_take (σ : Course ι β) (turn : ι × Option StoreFailure) :
    Reaches σ (σ.take turn) := by
  obtain ⟨i, refusal⟩ := turn
  cases h : σ.rest i with
  | done a =>
    rw [take_of_done h]
  | request step next =>
    rw [take_of_request h]
    exact .single (.mk h (replies_answer _ _ _))

theorem reaches_play (σ : Course ι β) (turns : List (ι × Option StoreFailure)) :
    Reaches σ (σ.play turns) := by
  induction turns generalizing σ with
  | nil => exact .refl
  | cons turn turns ih => exact (reaches_take σ turn).trans (ih (σ.take turn))

/-- Whatever can be reached is reached by some turns. -/
theorem reaches_iff_exists_play : Reaches σ τ ↔ ∃ turns, σ.play turns = τ := by
  constructor
  · intro h
    induction h with
    | refl => exact ⟨[], rfl⟩
    | tail _ hmove ih =>
      obtain ⟨turns, rfl⟩ := ih
      obtain ⟨hrest, hreplies⟩ := hmove
      rename_i i step next reply t
      obtain ⟨refusal, hanswer⟩ := hreplies.exists_answer
      refine ⟨turns ++ [(i, refusal)], ?_⟩
      rw [play, List.foldl_append, List.foldl_cons, List.foldl_nil, ← play,
        take_of_request hrest, hanswer]
  · rintro ⟨turns, rfl⟩
    exact reaches_play σ turns

end Course

section Mirror

open Course

variable {ι κ : Type} [DecidableEq ι] [DecidableEq κ] {β : ι ⊕ κ → Type} {tenant other : Id}
  {σ : Course (ι ⊕ κ) β} {ρ : Course ι fun i => β (.inl i)} {i : ι} {k : κ}

/-- A course of some calls, amid others, is as their own course on the rows of their tenant. -/
structure Mirrors (tenant : Id) (σ : Course (ι ⊕ κ) β) (ρ : Course ι fun i => β (.inl i)) :
    Prop where
  store : σ.store.portion tenant = ρ.store
  rest : ∀ i, σ.rest (.inl i) = ρ.rest i

theorem Mirrors.take_own (h : Mirrors tenant σ ρ) (hs : σ.store.Keyed) (hlines : σ.store.Anchored)
    (hstep : ∀ step next, σ.rest (.inl i) = .request step next →
      step.Within σ.store tenant ∧ ∀ id ∈ step.fresh?, σ.store.Reserves tenant id)
    (refusal : Option StoreFailure) :
    Mirrors tenant (σ.take (.inl i, refusal)) (ρ.take (i, refusal)) := by
  cases hrest : σ.rest (.inl i) with
  | done a =>
    rw [take_of_done hrest, take_of_done ((h.rest i).symm.trans hrest)]
    exact h
  | request step next =>
    obtain ⟨hwithin, hfresh⟩ := hstep step next hrest
    have hanswer := hs.answer_portion hlines hwithin hfresh refusal
    rw [h.store] at hanswer
    rw [take_of_request hrest, take_of_request ((h.rest i).symm.trans hrest), hanswer]
    refine ⟨rfl, fun j => ?_⟩
    by_cases hj : j = i
    · subst hj
      rw [reply_rest_self, reply_rest_self]
    · rw [reply_rest_of_ne hj, reply_rest_of_ne fun heq => hj (Sum.inl.inj heq)]
      exact h.rest j

/-- A turn of another call does not show. -/
theorem Mirrors.take_other (h : Mirrors tenant σ ρ) (hs : σ.store.Keyed)
    (hstep : ∀ step next, σ.rest (.inr k) = .request step next →
      ∃ other, step.Within σ.store other ∧ other ≠ tenant) (refusal : Option StoreFailure) :
    Mirrors tenant (σ.take (.inr k, refusal)) ρ := by
  cases hrest : σ.rest (.inr k) with
  | done a =>
    rw [take_of_done hrest]
    exact h
  | request step next =>
    obtain ⟨other, hwithin, hne⟩ := hstep step next hrest
    rw [take_of_request hrest]
    refine ⟨(hs.portion_answer_of_ne hwithin hne refusal).trans h.store, fun j => ?_⟩
    rw [reply_rest_of_ne Sum.inl_ne_inr]
    exact h.rest j

end Mirror

section Run

open Course

variable {ι κ κ' : Type} {service : Service} {own : ι → Job} {others : κ → Job}
  {others' : κ' → Job} {tenant : Id} {s s' : Store}

/-- Calls of a tenant amid those of others, on a store. Identifiers that are made for the tenant's
calls are made for no other call, and no row of others has them. -/
structure Separate (tenant : Id) (own : ι → Job) (others : κ → Job) (s : Store) : Prop where
  keyed : s.Keyed
  anchored : s.Anchored
  ownTenant : ∀ i, (own i).call.caller.tenant = some tenant
  otherTenants : ∀ k, (others k).call.caller.tenant ≠ some tenant
  apart : ∀ i k, (own i).call.fresh ≠ (others k).call.fresh
  reserves : ∀ i, s.Reserves tenant (own i).call.fresh

/-- The calls of a tenant and those of others, before any of them has begun. -/
def amid (service : Service) (own : ι → Job) (others : κ → Job) (s : Store) :
    Course (ι ⊕ κ) fun i => (Sum.elim own others i).Answer :=
  .start s fun i => (Sum.elim own others i).program service

/-- The turns of a tenant's calls among all turns. -/
def ownTurns (turns : List ((ι ⊕ κ) × Option StoreFailure)) : List (ι × Option StoreFailure) :=
  turns.filterMap fun turn => turn.1.getLeft?.map (·, turn.2)

variable [DecidableEq ι] [DecidableEq κ] [DecidableEq κ']
  {σ τ : Course (ι ⊕ κ) fun i => (Sum.elim own others i).Answer}

/-- What stays true of the calls of a tenant and of others as they take their turns. -/
structure Secluded (service : Service) (own : ι → Job) (others : κ → Job) (tenant : Id)
    (σ : Course (ι ⊕ κ) fun i => (Sum.elim own others i).Answer) : Prop
    extends Attentive service (Sum.elim own others) σ where
  anchored : σ.store.Anchored
  reserves : ∀ i, σ.store.Reserves tenant (own i).call.fresh

theorem Separate.secluded (h : Separate tenant own others s) :
    Secluded service own others tenant (amid service own others s) :=
  { attentive_start h.keyed with
    anchored := h.anchored
    reserves := h.reserves }

theorem Secluded.move (h : Move σ τ) (hσ : Secluded service own others tenant σ)
    (hseparate : Separate tenant own others s) : Secluded service own others tenant τ := by
  have hattentive := hσ.toAttentive.move h
  obtain ⟨hrest, hreplies⟩ := h
  rename_i j step next reply t
  refine ⟨hattentive, hreplies.anchored hσ.keyed hσ.anchored, fun i => ?_⟩
  obtain ⟨other, htenant, hwithin⟩ := hσ.within hrest
  refine hreplies.reserves hσ.keyed hwithin (fun hid => ?_) (hσ.reserves i)
  have hfresh := (hσ.demanded hrest).fresh hid
  cases j with
  | inl j => exact Option.some.inj (htenant.symm.trans (hseparate.ownTenant j))
  | inr k => exact absurd hfresh (hseparate.apart i k)

theorem secluded_of_reaches (h : Reaches σ τ) (hσ : Secluded service own others tenant σ)
    (hseparate : Separate tenant own others s) : Secluded service own others tenant τ := by
  induction h with
  | refl => exact hσ
  | tail _ hmove ih => exact ih.move hmove hseparate

/-- Amid the calls of others, a tenant's calls take their turns as they would alone. -/
theorem Secluded.mirrors_play (hσ : Secluded service own others tenant σ)
    (hseparate : Separate tenant own others s) {ρ : Course ι fun i => (own i).Answer}
    (h : Mirrors tenant σ ρ) (turns : List ((ι ⊕ κ) × Option StoreFailure)) :
    Mirrors tenant (σ.play turns) (ρ.play (ownTurns turns)) := by
  induction turns generalizing σ ρ with
  | nil => exact h
  | cons turn turns ih =>
    have hnext := secluded_of_reaches (reaches_take σ turn) hσ hseparate
    obtain ⟨j, refusal⟩ := turn
    cases j with
    | inl i =>
      refine ih hnext (h.take_own hσ.keyed hσ.anchored (fun step next hrest => ?_) refusal)
      obtain ⟨other, htenant, hwithin⟩ := hσ.within hrest
      obtain rfl := Option.some.inj ((hseparate.ownTenant i).symm.trans htenant)
      refine ⟨hwithin, fun id hid => ?_⟩
      rw [(hσ.demanded hrest).fresh hid]
      exact hσ.reserves i
    | inr k =>
      refine ih hnext (h.take_other hσ.keyed (fun step next hrest => ?_) refusal)
      obtain ⟨other, htenant, hwithin⟩ := hσ.within hrest
      refine ⟨other, hwithin, fun heq => ?_⟩
      exact hseparate.otherTenants k (htenant.trans (congrArg some heq))

theorem Separate.mirrors (h : Separate tenant own others s)
    (turns : List ((ι ⊕ κ) × Option StoreFailure)) :
    Mirrors tenant ((amid service own others s).play turns)
      ((start (s.portion tenant) fun i => (own i).program service).play (ownTurns turns)) :=
  h.secluded.mirrors_play h ⟨rfl, fun _ => rfl⟩ turns

/-- Calls of others, whatever they ask for and however many they are, change neither what a tenant's
calls answer and report nor what the store keeps for the tenant. -/
theorem tenant_isolated (h : Separate tenant own others s) (h' : Separate tenant own others' s')
    (hportion : s.portion tenant = s'.portion tenant)
    {turns : List ((ι ⊕ κ) × Option StoreFailure)} {turns' : List ((ι ⊕ κ') × Option StoreFailure)}
    (hturns : ownTurns turns = ownTurns turns') :
    (∀ i, ((amid service own others s).play turns).rest (.inl i)
        = ((amid service own others' s').play turns').rest (.inl i)) ∧
      ((amid service own others s).play turns).store.portion tenant
        = ((amid service own others' s').play turns').store.portion tenant := by
  have hmirrors : Mirrors tenant ((amid service own others s).play turns) _ := h.mirrors turns
  have hmirrors' : Mirrors tenant ((amid service own others' s').play turns') _ := h'.mirrors turns'
  rw [← hportion, ← hturns] at hmirrors'
  refine ⟨fun i => ?_, ?_⟩
  · exact (hmirrors.rest i).trans (hmirrors'.rest i).symm
  · exact hmirrors.store.trans hmirrors'.store.symm

omit [DecidableEq ι] [DecidableEq κ] [DecidableEq κ'] in
theorem separate_empty (hown : ∀ i, (own i).call.caller.tenant = some tenant)
    (hothers : ∀ k, (others k).call.caller.tenant ≠ some tenant)
    (hapart : ∀ i k, (own i).call.fresh ≠ (others k).call.fresh) :
    Separate tenant own others {} :=
  { keyed := lawful_empty.toKeyed
    anchored := fun _ hl => absurd hl List.not_mem_nil
    ownTenant := hown
    otherTenants := hothers
    apart := hapart
    reserves := fun _ =>
      ⟨fun _ hr => absurd hr List.not_mem_nil, fun _ hr => absurd hr List.not_mem_nil⟩ }

/-- Calls of another tenant: one that would retire the counter of the first call, and one for a
number of the same document type and series. -/
def intruder : Bool → Job
  | true =>
    { call := { caller := { tenant := some (.ofNat 5) }, now := default, fresh := .ofNat 6 }
      request := .deleteCounter (.ofNat 2) }
  | false =>
    { call := { caller := { tenant := some (.ofNat 5) }, now := default, fresh := .ofNat 7 }
      request := .generateNumber (.ofNat 3) "" }

/-- The intruder's calls come before, between and after the requests of the first call. -/
def intrusion : List ((Unit ⊕ Bool) × Option StoreFailure) :=
  [(.inr false, none), (.inl (), none), (.inr false, none), (.inl (), none), (.inr true, none)]

theorem tenant_isolated_intrusion :
    ((amid {} (fun _ : Unit => firstCall) intruder {}).play intrusion).store.counters.length = 2 ∧
      ((amid {} (fun _ : Unit => firstCall) intruder {}).play intrusion).rest (.inl ())
        = ((amid {} (fun _ : Unit => firstCall) (Empty.elim : Empty → Job) {}).play
          [(.inl (), none), (.inl (), none)]).rest (.inl ()) := by
  have h : Separate (.ofNat 1) (fun _ : Unit => firstCall) intruder {} :=
    separate_empty (fun _ => rfl) (by decide) (fun _ => by decide)
  have h' : Separate (.ofNat 1) (fun _ : Unit => firstCall) (Empty.elim : Empty → Job) {} :=
    separate_empty (fun _ => rfl) nofun nofun
  let alone : List ((Unit ⊕ Empty) × Option StoreFailure) := [(.inl (), none), (.inl (), none)]
  have hturns : ownTurns intrusion = ownTurns alone := rfl
  exact ⟨by decide +kernel, (tenant_isolated h h' rfl hturns).1 ()⟩

end Run

end Docket
