import Docket.Proofs.Commits
import Docket.Proofs.Isolation
import Docket.Proofs.Twins

/-! # Settings and numbers

What a counter is configured with has no part in which number comes next. Calls that change settings
may come before, between and after the requests of others: as long as they leave it at whether the
counter starts again, no number is another one for that.
-/

namespace Docket

open Store Issuing Simulation

/-- Counters that are written have a padding in range. -/
def Step.Padded : Step → Prop
  | .insertCounter c => 1 ≤ c.settings.padding ∧ c.settings.padding ≤ 10
  | .updateSettings c => 1 ≤ c.settings.padding ∧ c.settings.padding ≤ 10
  | _ => True

theorem Job.Demands.padded {service : Service} {job : Job} {seen : Store → Prop} {step : Step}
    (h : job.Demands service seen step) : step.Padded := by
  obtain ⟨call, request⟩ := job
  obtain ⟨tenant, -, h⟩ := h
  cases step with
  | insertCounter c =>
    cases request with
    | createCounter new =>
      obtain ⟨hnew, rfl⟩ := h
      exact padding_of_checkSettings (settings_of_checkNewCounter hnew)
    | _ => exact h.elim
  | updateSettings c =>
    cases request with
    | updateCounter id settings =>
      obtain ⟨hsettings, s, b, -, -, rfl⟩ := h
      exact padding_of_checkSettings hsettings
    | _ => exact h.elim
  | _ => exact trivial

namespace Store

variable {s t : Store} {step step' : Step} {reply : step.Reply} {r q : CounterRow} {c : Counter}

def CounterRow.Padded (r : CounterRow) : Prop := 1 ≤ r.padding ∧ r.padding ≤ 10

theorem padded_encode (h : 1 ≤ c.settings.padding ∧ c.settings.padding ≤ 10) :
    (CounterRow.encode c).Padded := by
  simp only [CounterRow.Padded, CounterRow.encode]
  omega

/-- A padding that can be read can be read for good: no other padding is ever written. -/
theorem Replies.padded (h : s.Replies step reply t) (hs : s.Keyed) (hstep : step.Padded)
    (hr : r ∈ s.counters) (hpadded : r.Padded) (hq : q ∈ t.counters) (hid : q.id = r.id) :
    q.Padded := by
  have hkept : q ∈ s.counters → q.Padded := fun hq => by rwa [hs.counter_eq hq hr hid]
  cases ha : Scene.allocation? step with
  | some a =>
    rcases h.none_or_advances hs (Or.inr ⟨a, ha⟩) with
      ⟨-, rfl⟩ | ⟨b, d, u, -, hadvances, hcounters, -⟩
    · exact hkept hq
    · rw [hcounters] at hq
      rcases hadvances.mem_counters.mp hq with rfl | ⟨hq, -⟩
      · exact padded_encode hadvances.storable.padding
      · exact hkept hq
  | none =>
    cases h.origin hs hq with
    | kept stored => exact hkept stored
    | inserted request row =>
      subst request row
      exact padded_encode hstep
    | @configured d p request stored row =>
      subst request row
      exact padded_encode (c := d) hstep
    | @retired tenant id stamp p request stored row =>
      subst row
      obtain rfl := hs.counter_eq stored hr hid
      exact hpadded
    | first request | next request => cases ha.symm.trans request

theorem CounterRow.configured_bare (hr : r.Padded)
    (hc : 1 ≤ c.settings.padding ∧ c.settings.padding ≤ 10)
    (hresets : c.settings.resets = r.resets) :
    (r.configured c).bare = r.bare := by
  have hwritten : 1 ≤ (c.settings.padding : Int) ∧ (c.settings.padding : Int) ≤ 10 :=
    padded_encode hc
  simp only [CounterRow.bare, CounterRow.configured, hresets]
  rw [if_pos hwritten, if_pos (show 1 ≤ r.padding ∧ r.padding ≤ 10 from hr)]

theorem updateSettings_bare_eq
    (hpadded : ∀ r ∈ s.counters, r.id = c.id → r.Padded)
    (hc : 1 ≤ c.settings.padding ∧ c.settings.padding ≤ 10)
    (hresets : ∀ r ∈ s.counters, ∀ q ∈ (s.updateSettings c).2.counters, q.id = r.id →
      q.resets = r.resets) :
    (s.updateSettings c).2.bare = s.bare := by
  unfold updateSettings at hresets ⊢
  split at hresets
  · rfl
  · have hrows : (s.changeCounter c.id fun r => r.configured c).counters.map CounterRow.bare
        = s.counters.map CounterRow.bare := by
      simp only [changeCounter, List.map_map]
      refine List.map_congr_left fun r hr => ?_
      by_cases hid : r.id = c.id
      · have hmem : r.configured c ∈ (s.changeCounter c.id fun r => r.configured c).counters :=
          mem_changeCounter.mpr (Or.inl ⟨r, hr, hid, rfl⟩)
        rw [Function.comp_apply, if_pos hid]
        exact CounterRow.configured_bare (hpadded r hr hid) hc (hresets r hr _ hmem rfl)
      · rw [Function.comp_apply, if_neg hid]
    exact congrArg (fun rows => { s.bare with counters := rows }) hrows

theorem Keyed.answer_twins {R : step.Result → step'.Result → Prop} (hs : s.Keyed) (ht : t.Keyed)
    (h : s.bare = t.bare) (hsteps : step.Twins step' R) (refusal : Option StoreFailure) :
    Paired R (s.answer step refusal).1 (t.answer step' refusal).1 ∧
      (s.answer step refusal).2.bare = (t.answer step' refusal).2.bare := by
  cases refusal with
  | none => exact hs.perform_twins ht h hsteps
  | some failure => exact ⟨.error failure, h⟩

end Store

/-- An exchange that leaves it at which counters start again. -/
def Exchange.KeepsResets (e : Exchange) : Prop :=
  ∀ r ∈ e.before.counters, ∀ q ∈ e.after.counters, q.id = r.id → q.resets = r.resets

instance : DecidablePred Exchange.KeepsResets := fun e =>
  inferInstanceAs (Decidable (∀ r ∈ e.before.counters, ∀ q ∈ e.after.counters, _ → _))

section Run

open Course

variable {ι κ κ' : Type} {service : Service} {own : ι → Job} {others : κ → Job}
  {others' : κ' → Job} {jobs : ι → Job} {s s' : Store} [DecidableEq ι] [DecidableEq κ]
  [DecidableEq κ']

/-- Calls as they take their turns, with paddings that can be read for good. -/
structure Readied (service : Service) (jobs : ι → Job) (σ : Course ι fun i => (jobs i).Answer) :
    Prop extends Attentive service jobs σ where
  padded : ∀ i u, σ.seen i u → ∀ r ∈ u.counters, r.Padded →
    ∀ q ∈ σ.store.counters, q.id = r.id → q.Padded

theorem Readied.move {σ τ : Course ι fun i => (jobs i).Answer} (h : Move σ τ)
    (hσ : Readied service jobs σ) : Readied service jobs τ := by
  have hattentive := hσ.toAttentive.move h
  obtain ⟨hrest, hreplies⟩ := h
  rename_i i step next reply t
  have hpadded := fun {r q} => hreplies.padded (r := r) (q := q) hσ.keyed (hσ.demanded hrest).padded
  refine ⟨hattentive, ?_⟩
  rintro j u ⟨e, he, rfl⟩ r hr hrpadded q hq hid
  rcases List.mem_append.mp he with he | he
  · obtain ⟨p, hp, hrp⟩ := hσ.recalls j e.before ⟨e, he, rfl⟩ r hr
    exact hpadded hp (hσ.padded j e.before ⟨e, he, rfl⟩ r hr hrpadded p hp hrp.id) hq
      (hid.trans hrp.id.symm)
  · cases List.mem_singleton.mp he
    exact hpadded hr hrpadded hq hid

theorem readied_start (hs : s.Keyed) :
    Readied service jobs (.start s fun i => (jobs i).program service) :=
  ⟨attentive_start hs, fun _ _ ⟨_, he, _⟩ => absurd he List.not_mem_nil⟩

theorem Readied.of_reaches {σ τ : Course ι fun i => (jobs i).Answer} (h : Reaches σ τ)
    (hσ : Readied service jobs σ) : Readied service jobs τ := by
  induction h with
  | refl => exact hσ
  | tail _ hmove ih => exact ih.move hmove

/-- A course of some calls, amid others, goes like a course of their own but for configurations and
texts of numbers. -/
structure Echoes (σ : Course (ι ⊕ κ) fun i => (Sum.elim own others i).Answer)
    (ρ : Course ι fun i => (own i).Answer) : Prop where
  store : σ.store.bare = ρ.store.bare
  rest : ∀ i, Program.Twin (σ.rest (.inl i)) (ρ.rest i)
  taken : ∀ i, (σ.taken (.inl i)).map (Prod.map id Number.bare)
    = (ρ.taken i).map (Prod.map id Number.bare)

variable {σ τ : Course (ι ⊕ κ) fun i => (Sum.elim own others i).Answer}
  {ρ : Course ι fun i => (own i).Answer} {i : ι} {k : κ}

theorem Echoes.take_own (h : Echoes σ ρ) (hσ : σ.store.Keyed) (hρ : ρ.store.Keyed)
    (refusal : Option StoreFailure) :
    Echoes (σ.take (.inl i, refusal)) (ρ.take (i, refusal)) := by
  have htwin := h.rest i
  generalize hσi : σ.rest (.inl i) = p at htwin
  generalize hρi : ρ.rest i = q at htwin
  cases htwin with
  | done agree =>
    rw [take_of_done hσi, take_of_done hρi]
    exact h
  | request steps rests =>
    obtain ⟨hreply, hstore⟩ := hσ.answer_twins hρ h.store steps refusal
    rw [take_of_request hσi, take_of_request hρi]
    refine ⟨hstore, fun j => ?_, fun j => ?_⟩
    · by_cases hj : j = i
      · subst hj
        rw [reply_rest_self, reply_rest_self]
        exact rests _ _ hreply
      · rw [reply_rest_of_ne hj, reply_rest_of_ne fun heq => hj (Sum.inl.inj heq)]
        exact h.rest j
    · by_cases hj : j = i
      · subst hj
        have hissue := congrArg Option.toList (issue?_bare steps hreply)
        rw [taken_reply_self, taken_reply_self, List.map_append, List.map_append, h.taken,
          ← Option.toList_map, ← Option.toList_map, hissue]
      · rw [taken_reply_of_ne hj, taken_reply_of_ne fun heq => hj (Sum.inl.inj heq)]
        exact h.taken j

theorem Readied.answer_bare {jobs : ι → Job} {σ : Course ι fun i => (jobs i).Answer} {i : ι}
    (hσ : Readied service jobs σ) {counter : Id} {settings : CounterSettings}
    (hjob : (jobs i).request = .updateCounter counter settings) {step : Step}
    {next : step.Reply → Program (jobs i).Answer} (hrest : σ.rest i = .request step next)
    (refusal : Option StoreFailure)
    (hkeeps : Exchange.KeepsResets
      ⟨σ.store, step, (σ.store.answer step refusal).1, (σ.store.answer step refusal).2⟩) :
    (σ.store.answer step refusal).2.bare = σ.store.bare := by
  obtain ⟨tenant, -, hdemand⟩ := hσ.demanded hrest
  rw [hjob] at hdemand
  cases refusal with
  | some failure => rfl
  | none =>
    cases step with
    | findCounter owner id => rfl
    | updateSettings c =>
      obtain ⟨hsettings, u, b, hseen, hb, rfl⟩ := hdemand
      obtain ⟨hmem, rfl, hstorable⟩ := mem_of_findCounter hb
      have hpadded := padded_encode hstorable.padding
      refine updateSettings_bare_eq (fun r hr hid => ?_) (padding_of_checkSettings hsettings) hkeeps
      exact hσ.padded i u hseen _ (mem_liveCounters.mp hmem).1 hpadded r hr hid
    | _ => exact hdemand.elim

theorem Echoes.take_other (h : Echoes σ ρ) (hσ : Readied service (Sum.elim own others) σ)
    {counter : Id} {settings : CounterSettings}
    (hk : (others k).request = .updateCounter counter settings) (refusal : Option StoreFailure)
    (hkeeps : ∀ e, (.inr k, e) ∈ (σ.take (.inr k, refusal)).trace → e.KeepsResets) :
    Echoes (σ.take (.inr k, refusal)) ρ := by
  cases hrest : σ.rest (.inr k) with
  | done a =>
    rw [take_of_done hrest]
    exact h
  | request step next =>
    rw [take_of_request hrest] at hkeeps ⊢
    have hbare := hσ.answer_bare (i := Sum.inr k) hk hrest refusal
      (hkeeps _ (List.mem_append_right _ (List.mem_singleton_self _)))
    refine ⟨hbare.trans h.store, fun i => ?_, fun i => ?_⟩
    · rw [reply_rest_of_ne Sum.inl_ne_inr]
      exact h.rest i
    · rw [taken_reply_of_ne Sum.inl_ne_inr]
      exact h.taken i

omit [DecidableEq κ] in
theorem mem_trace_of_reaches {β : κ → Type} [DecidableEq κ] {σ τ : Course κ β} (h : Reaches σ τ)
    {x : κ × Exchange} (hx : x ∈ σ.trace) : x ∈ τ.trace := by
  induction h with
  | refl => exact hx
  | tail _ hmove ih =>
    obtain ⟨-, -⟩ := hmove
    exact List.mem_append_left _ ih

/-- Calls for new settings, wherever they come in, go unnoticed in the numbers of other calls. -/
theorem Readied.echoes_play (hσ : Readied service (Sum.elim own others) σ)
    (hρ : Readied service own ρ)
    (hothers : ∀ k, ∃ counter settings, (others k).request = .updateCounter counter settings)
    (h : Echoes σ ρ) (turns : List ((ι ⊕ κ) × Option StoreFailure))
    (hkeeps : ∀ k e, (.inr k, e) ∈ (σ.play turns).trace → e.KeepsResets) :
    Echoes (σ.play turns) (ρ.play (ownTurns turns)) := by
  induction turns generalizing σ ρ with
  | nil => exact h
  | cons turn turns ih =>
    have hnext := hσ.of_reaches (reaches_take σ turn)
    obtain ⟨j, refusal⟩ := turn
    cases j with
    | inl i =>
      exact ih hnext (hρ.of_reaches (reaches_take ρ (i, refusal)))
        (h.take_own hσ.keyed hρ.keyed refusal) hkeeps
    | inr k =>
      obtain ⟨counter, settings, hk⟩ := hothers k
      refine ih hnext hρ (h.take_other hσ hk refusal fun e he => hkeeps k e ?_) hkeeps
      exact mem_trace_of_reaches (reaches_play _ turns) he

theorem echoes_amid (hs : s.Keyed)
    (hothers : ∀ k, ∃ counter settings, (others k).request = .updateCounter counter settings)
    (turns : List ((ι ⊕ κ) × Option StoreFailure))
    (hkeeps : ∀ k e, (.inr k, e) ∈ ((amid service own others s).play turns).trace →
      e.KeepsResets) :
    Echoes ((amid service own others s).play turns)
      ((start s fun i => (own i).program service).play (ownTurns turns)) :=
  (readied_start hs).echoes_play (readied_start hs) hothers
    ⟨rfl, fun _ => service.twin_serve _ _, fun _ => rfl⟩ turns hkeeps

theorem Echoes.succeeds (h : Echoes σ ρ) (i : ι) : σ.succeeds (.inl i) = ρ.succeeds i := by
  have htwin := h.rest i
  generalize hσ : σ.rest (.inl i) = p at htwin
  generalize hρ : ρ.rest i = q at htwin
  unfold Course.succeeds
  rw [hσ, hρ]
  cases htwin with
  | request => rfl
  | @done x y agree =>
    cases x <;> cases y
    · rfl
    · cases agree
    · cases agree
    · rfl

/-- Calls for new settings that leave it at which counters start again influence no number that is
handed out. -/
theorem settings_leave_numbers (hs : s.Keyed)
    (hothers : ∀ k, ∃ counter settings, (others k).request = .updateCounter counter settings)
    (hothers' : ∀ k, ∃ counter settings, (others' k).request = .updateCounter counter settings)
    {turns : List ((ι ⊕ κ) × Option StoreFailure)} {turns' : List ((ι ⊕ κ') × Option StoreFailure)}
    (hturns : ownTurns turns = ownTurns turns')
    (hkeeps : ∀ k e, (.inr k, e) ∈ ((amid service own others s).play turns).trace → e.KeepsResets)
    (hkeeps' : ∀ k e, (.inr k, e) ∈ ((amid service own others' s).play turns').trace →
      e.KeepsResets) :
    (∀ i, ((amid service own others s).play turns).succeeds (.inl i)
        = ((amid service own others' s).play turns').succeeds (.inl i) ∧
      (((amid service own others s).play turns).taken (.inl i)).map (Prod.map id Number.bare)
        = (((amid service own others' s).play turns').taken (.inl i)).map
          (Prod.map id Number.bare)) ∧
      ((amid service own others s).play turns).store.counters.map (fun r => (r.id, r.year, r.value))
        = ((amid service own others' s).play turns').store.counters.map
          fun r => (r.id, r.year, r.value) := by
  have hechoes := echoes_amid hs hothers turns hkeeps
  have hechoes' := echoes_amid hs hothers' turns' hkeeps'
  rw [← hturns] at hechoes'
  have hrows := counters_of_bare (hechoes.store.trans hechoes'.store.symm)
  refine ⟨fun i => ⟨?_, ?_⟩, ?_⟩
  · exact (hechoes.succeeds i).trans (hechoes'.succeeds i).symm
  · exact (hechoes.taken i).trans (hechoes'.taken i).symm
  · exact map_eq_map_of_map_eq hrows fun r q hrq =>
      show (r.bare.id, r.bare.year, r.bare.value) = _ by rw [hrq]; rfl

omit [DecidableEq ι] [DecidableEq κ] [DecidableEq κ']

/-- Two calls for numbers of a stream, the second one in the next year. -/
def newYearCalls : Bool → Job
  | true => firstCall
  | false => { firstCall with call.now.second := 31536000, call.fresh := .ofNat 4 }

/-- A call that gives the counter of the stream another look. -/
def relabelling : Job :=
  { call := { caller := { tenant := some (.ofNat 1) }, now := default, fresh := .ofNat 5 }
    request := .updateCounter (.ofNat 2) { lead := some "N", padding := 3 } }

/-- The settings are changed between the two calls. -/
def relabelled : List ((Bool ⊕ Unit) × Option StoreFailure) :=
  [(.inl true, none), (.inl true, none), (.inr (), none), (.inr (), none), (.inl false, none),
    (.inl false, none)]

theorem settings_leave_numbers_relabelled :
    let alone : List ((Bool ⊕ Empty) × Option StoreFailure) :=
      (ownTurns relabelled).map fun turn => (.inl turn.1, turn.2)
    let σ := (amid {} newYearCalls (fun _ : Unit => relabelling) {}).play relabelled
    let τ := (amid {} newYearCalls (Empty.elim : Empty → Job) {}).play alone
    σ.store.counters.map CounterRow.lead = [some "N"] ∧
      τ.store.counters.map CounterRow.lead = [none] ∧
      (σ.taken (.inl false)).map (fun x => (x.2.year, x.2.value)) = [(some 1971, 1)] ∧
      (σ.taken (.inl false)).map (Prod.map id Number.bare)
        = (τ.taken (.inl false)).map (Prod.map id Number.bare) := by
  intro alone σ τ
  have hothers : ∀ k : Empty, ∃ counter settings,
      ((Empty.elim : Empty → Job) k).request = .updateCounter counter settings := nofun
  have hturns : ownTurns relabelled = ownTurns alone := rfl
  have hkeeps : ∀ p ∈ σ.trace, p.1.isRight = true → p.2.KeepsResets := by decide +kernel
  have hkeeps' : ∀ (k : Empty) e, (.inr k, e) ∈ τ.trace → e.KeepsResets := nofun
  have hnumbers := (settings_leave_numbers lawful_empty.toKeyed (fun _ => ⟨_, _, rfl⟩) hothers
    hturns (fun k e he => hkeeps _ he rfl) hkeeps').1 false
  exact ⟨by decide +kernel, by decide +kernel, by decide +kernel, hnumbers.2⟩

end Run

end Docket
