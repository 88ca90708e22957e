import Docket.Proofs.Entries
import Docket.Proofs.Serial

/-! # Counters after their retirement

A retired counter is out of reach of all calls that look for it after that. But settings are written
to a counter by its identifier, retired or not: a call that has found a counter, and is about to
write its settings when another one retires it, writes them all the same and succeeds.
-/

namespace Docket

open Store Issuing Simulation

variable {α : Type} {s t : Store} {step : Step}

namespace Store

variable {reply : step.Reply} {c : Counter} {r q p : CounterRow} {tenant : Id}

/-- A row with the settings of some counter at most: all that is not configured has stayed. -/
def CounterRow.Reconfigures (r q : CounterRow) : Prop := q = r ∨ ∃ c, q = r.configured c

namespace CounterRow.Reconfigures

theorem trans (h : r.Reconfigures q) (h' : q.Reconfigures p) : r.Reconfigures p := by
  rcases h with rfl | ⟨c, rfl⟩
  · exact h'
  · rcases h' with rfl | ⟨d, rfl⟩
    · exact Or.inr ⟨c, rfl⟩
    · exact Or.inr ⟨d, rfl⟩

theorem id_eq (h : r.Reconfigures q) : q.id = r.id := by
  rcases h with rfl | ⟨c, rfl⟩ <;> rfl

theorem isLive_eq (h : r.Reconfigures q) : q.isLive = r.isLive := by
  rcases h with rfl | ⟨c, rfl⟩ <;> rfl

end CounterRow.Reconfigures

theorem Keyed.findCounter_of_retired (hs : s.Keyed) (hr : r ∈ s.counters)
    (hretired : r.isLive = false) : s.findCounter tenant r.id = .ok none := by
  refine findCounter_eq_none_iff.mpr fun q hq hid => ?_
  obtain ⟨hq, -, hlive⟩ := mem_liveCounters.mp hq
  rw [hs.counter_eq hq hr hid, hretired] at hlive
  cases hlive

/-- No request changes a retired row, but one that writes settings to it. -/
theorem Replies.mem_of_retired (h : s.Replies step reply t) (hs : s.Keyed) (hr : r ∈ s.counters)
    (hretired : r.isLive = false) :
    r ∈ t.counters ∨ ∃ c, step = .updateSettings c ∧ c.id = r.id ∧ r.configured c ∈ t.counters := by
  cases h with
  | refused => exact Or.inl hr
  | served =>
    cases hstep : Scene.allocation? step with
    | some a =>
      have hserved : s.Replies step (s.perform step).1 (s.perform step).2 := .served
      rcases hserved.none_or_advances hs (Or.inr ⟨a, hstep⟩) with
        ⟨-, heq⟩ | ⟨b, c, u, -, hadvances, hcounters, -⟩
      · rw [heq]
        exact Or.inl hr
      · rcases hadvances.moves hs hr with ⟨hkept, -⟩ | ⟨hlive, -⟩
        · exact Or.inl (hcounters ▸ hkept)
        · exact absurd (hretired.symm.trans hlive) Bool.false_ne_true
    | none =>
      cases step with
      | allocate | assignNumber => cases hstep
      | insertCounter c =>
        left
        simp only [perform, insertCounter]
        cases hadd : s.addCounter (.encode c) with
        | error f => exact hr
        | ok u =>
          obtain ⟨-, -, rfl⟩ := addCounter_eq_ok_iff.mp hadd
          exact List.mem_append_left _ hr
      | updateSettings c =>
        simp only [perform]
        by_cases hid : c.id = r.id
        · rw [hs.updateSettings_of_mem hr hid]
          exact Or.inr ⟨c, rfl, hid, mem_changeCounter.mpr (Or.inl ⟨r, hr, hid.symm, rfl⟩)⟩
        · left
          unfold updateSettings
          split
          · exact hr
          · exact mem_changeCounter.mpr (Or.inr ⟨hr, fun h => hid h.symm⟩)
      | retireCounter tenant id stamp =>
        left
        simp only [perform, retireCounter]
        split
        · refine List.mem_map.mpr ⟨r, hr, if_neg fun h => ?_⟩
          exact absurd (hretired.symm.trans h.2.2) Bool.false_ne_true
        · exact hr
      | insertDocument d =>
        exact Or.inl (commit_induction (P := fun t => r ∈ t.counters) hr fun _ _ h =>
          insertDocument_counters h ▸ hr)
      | applyChange d expected c =>
        exact Or.inl (commit_induction (P := fun t => r ∈ t.counters) hr fun _ _ h =>
          applyChange_counters h ▸ hr)
      | _ => exact Or.inl hr

theorem Replies.exists_reconfigures (h : s.Replies step reply t) (hs : s.Keyed)
    (hr : r ∈ s.counters) (hretired : r.isLive = false) :
    ∃ q ∈ t.counters, r.Reconfigures q := by
  rcases h.mem_of_retired hs hr hretired with hmem | ⟨c, -, -, hmem⟩
  · exact ⟨r, hmem, Or.inl rfl⟩
  · exact ⟨_, hmem, Or.inr ⟨c, rfl⟩⟩

end Store

theorem Request.Prompts.found_of_updateSettings {service : Service} {call : Call} {tenant : Id}
    {request : Request} {told : List Response} {c : Counter}
    (h : request.Prompts service call tenant told (.updateSettings c)) {r : Response}
    (hr : r ∈ told) : ∃ id b, r = ⟨.findCounter tenant id, .ok (some b)⟩ ∧ c.id = b.id := by
  generalize hstep : Step.updateSettings c = step at h
  cases h with
  | configure =>
    cases hstep
    exact ⟨_, _, List.mem_singleton.mp hr, rfl⟩
  | opening => cases request <;> cases hstep
  | _ => cases hstep

namespace Service

open Docket.Action

variable {service : Service} {call : Call} {tenant id : Id} {settings : CounterSettings}

theorem run_updateCounter (hcall : call.ActsFor tenant)
    (hsettings : checkSettings settings = .ok ()) :
    (service.updateCounter call id settings).run
      = .request (.findCounter tenant id) fun reply =>
        match (reply : Except StoreFailure (Option Counter)) with
        | .ok (some c) =>
          .request (.updateSettings { c with settings := settings, updated := service.stamp call })
            fun reply =>
              match (reply : Except StoreFailure Counter) with
              | .ok d => .done (.ok ⟨d, [.counterUpdated (.of d (service.stamp call))]⟩)
              | .error f => .done (.error f.toFailure)
        | .ok none => .done (.error (.error (.notFound "counter" id.text)))
        | .error f => .done (.error f.toFailure) := by
  rw [updateCounter, run_scope_bind hcall, run_check_bind hsettings, run_start_bind hcall,
    liveCounter, Action.bind_assoc, run_ask_bind]
  congr 1
  funext reply
  rcases reply with f | _ | c
  · rfl
  · rfl
  · refine (run_ask_bind _ _).trans ?_
    congr 1
    funext reply
    cases reply <;> rfl

end Service

namespace Job

/-- Calls that configure a counter and are not refused for what they are. -/
def Configures (job : Job) (id : Id) : Prop :=
  ∃ tenant settings, job.request = .updateCounter id settings ∧ job.call.ActsFor tenant ∧
    checkSettings settings = .ok ()

theorem Configures.program_eq {job : Job} {id : Id} (h : job.Configures id) (service : Service) :
    ∃ tenant next, job.program service = .request (.findCounter tenant id) next ∧
      next (.ok (none : Option Counter)) = .done (.error (.error (.notFound "counter" id.text))) ∧
      ∀ f, next (.error f) = .done (.error f.toFailure) := by
  obtain ⟨call, request⟩ := job
  obtain ⟨tenant, settings, hrequest, hcall, hsettings⟩ := h
  change request = _ at hrequest
  subst hrequest
  exact ⟨tenant, _, Service.run_updateCounter hcall hsettings, rfl, fun _ => rfl⟩

end Job

namespace Course

variable {ι : Type} {β : ι → Type} {σ : Course ι β} {i : ι} {c : Counter}

/-- A call is about to write the settings of a counter. -/
def Poised (σ : Course ι β) (i : ι) (c : Counter) : Prop :=
  ∃ next, σ.rest i = .request (.updateSettings c) next

end Course

section Run

open Course

variable {ι : Type} [DecidableEq ι] {service : Service} {jobs : ι → Job} {s : Store}
  {σ τ : Course ι fun i => (jobs i).Answer} {r q : CounterRow} {i : ι} {c : Counter}

/-- A course of calls that heed what they are told of counters. -/
structure Heeding (service : Service) (jobs : ι → Job)
    (σ : Course ι fun i => (jobs i).Answer) : Prop extends Conducted service jobs σ where
  keyed : σ.store.Keyed

theorem Heeding.move (hσ : Heeding service jobs σ) (h : Course.Move σ τ) :
    Heeding service jobs τ := by
  have hconducted := hσ.toConducted.move h
  obtain ⟨-, hreplies⟩ := h
  exact ⟨hconducted, hreplies.keyed hσ.keyed⟩

theorem Heeding.of_reaches (hσ : Heeding service jobs σ) (h : Reaches σ τ) :
    Heeding service jobs τ := by
  induction h with
  | refl => exact hσ
  | tail _ hmove ih => exact ih.move hmove

theorem heeding_of_reaches (hs : s.Keyed)
    (h : Reaches (.start s fun i => (jobs i).program service) σ) : Heeding service jobs σ :=
  Heeding.of_reaches ⟨conducted_start s, hs⟩ h

theorem Heeding.poised_of_move (hσ : Heeding service jobs σ) (h : Course.Move σ τ)
    (hc : τ.Poised i c) :
    σ.Poised i c ∨ ∃ tenant b, σ.store.findCounter tenant c.id = .ok (some b) := by
  have hτ := hσ.toConducted.move h
  obtain ⟨hrest, hreplies⟩ := h
  obtain ⟨later, hlater⟩ := hc
  rename_i j step next reply t
  by_cases hj : i = j
  · subst hj
    obtain ⟨tenant, -, prompted⟩ := hτ.prompts hlater
    rw [told_reply_self] at prompted
    have hlast : (⟨step, reply⟩ : Response) ∈ σ.told i ++ [⟨step, reply⟩] :=
      List.mem_append_right _ (List.mem_singleton_self _)
    obtain ⟨id, b, hfound, hid⟩ := prompted.found_of_updateSettings hlast
    cases hfound
    have hfind : σ.store.findCounter tenant id = .ok (some b) :=
      congrArg Prod.fst hreplies.perform_eq
    exact Or.inr ⟨tenant, b, by rwa [hid, (mem_of_findCounter hfind).2.1]⟩
  · rw [reply_rest_of_ne hj] at hlater
    exact Or.inl ⟨later, hlater⟩

section Retired

variable (hσ : Heeding service jobs σ) (hr : r ∈ σ.store.counters) (hretired : r.isLive = false)
  (h : Reaches σ τ)

include hσ hr hretired h

/-- A retired counter stays retired, and all but its settings stays as it is. -/
theorem Heeding.exists_reconfigures : ∃ q ∈ τ.store.counters, r.Reconfigures q := by
  induction h with
  | refl => exact ⟨r, hr, Or.inl rfl⟩
  | tail hreach hmove ih =>
    obtain ⟨q, hq, hrq⟩ := ih
    have hkeyed := (hσ.of_reaches hreach).keyed
    obtain ⟨-, hreplies⟩ := hmove
    obtain ⟨p, hp, hqp⟩ := hreplies.exists_reconfigures hkeyed hq (hrq.isLive_eq.trans hretired)
    exact ⟨p, hp, hrq.trans hqp⟩

theorem Heeding.findCounter_of_retired (tenant : Id) :
    τ.store.findCounter tenant r.id = .ok none := by
  obtain ⟨q, hq, hrq⟩ := hσ.exists_reconfigures hr hretired h
  have hfind : τ.store.findCounter tenant q.id = .ok none :=
    (hσ.of_reaches h).keyed.findCounter_of_retired hq (hrq.isLive_eq.trans hretired)
  rwa [hrq.id_eq] at hfind

/-- No call comes to write settings to a counter that is retired. -/
theorem Heeding.poised_of_reaches (hc : τ.Poised i c) (hid : c.id = r.id) : σ.Poised i c := by
  induction h with
  | refl => exact hc
  | tail hreach hmove ih =>
    rcases (hσ.of_reaches hreach).poised_of_move hmove hc with hc | ⟨tenant, b, hb⟩
    · exact ih hc
    · have hnone := hσ.findCounter_of_retired hr hretired hreach tenant
      rw [hid, hnone] at hb
      cases hb

theorem Heeding.mem_of_reaches
    (hsame : ∀ i c, σ.Poised i c → c.id = r.id → r.configured c = r) : r ∈ τ.store.counters := by
  induction h with
  | refl => exact hr
  | tail hreach hmove ih =>
    have hkeyed := (hσ.of_reaches hreach).keyed
    obtain ⟨hrest, hreplies⟩ := hmove
    rcases hreplies.mem_of_retired hkeyed ih hretired with hmem | ⟨c, rfl, hid, hmem⟩
    · exact hmem
    · have hpoised := hσ.poised_of_reaches hr hretired hreach ⟨_, hrest⟩ hid
      rwa [hsame _ c hpoised hid] at hmem

theorem Heeding.failure_of_reaches (hi : (jobs i).Configures r.id)
    (hidle : σ.rest i = (jobs i).program service) :
    τ.rest i = (jobs i).program service ∨ ∃ f, τ.rest i = .done (.error f) ∧
      ((∀ e ∈ τ.own i, e.Served) → f = .error (.notFound "counter" r.id.text)) := by
  obtain ⟨tenant, next, hprogram, hnone, herror⟩ := hi.program_eq service
  induction h with
  | refl => exact Or.inl hidle
  | tail hreach hmove ih =>
    have hfind := hσ.findCounter_of_retired hr hretired hreach tenant
    obtain ⟨hrest, hreplies⟩ := hmove
    rename_i υ j step later reply t
    by_cases hj : i = j
    · subst hj
      rcases ih with hwaiting | ⟨f, hdone, -⟩
      · right
        cases hprogram.symm.trans (hwaiting.symm.trans hrest)
        rw [reply_rest_self, own_reply_self]
        cases hreplies with
        | served =>
          have hreply : (υ.store.perform (.findCounter tenant r.id)).1 = .ok none := hfind
          rw [hreply]
          exact ⟨_, hnone, fun _ => rfl⟩
        | refused f =>
          refine ⟨_, herror f, fun hserved => ?_⟩
          have hlast := hserved _ (List.mem_append_right _ (List.mem_singleton_self _))
          cases hfind.symm.trans (congrArg Prod.fst hlast)
      · cases hdone.symm.trans hrest
    · rw [reply_rest_of_ne hj, own_reply_of_ne hj]
      exact ih

end Retired

theorem Heeding.serve_poised (hσ : Heeding service jobs σ) (hr : r ∈ σ.store.counters)
    (hc : σ.Poised i c) (hid : c.id = r.id) :
    r.configured c ∈ (σ.serve i).store.counters ∧
      ((r.configured c).decode.isOk = true → (σ.serve i).succeeds i = true) := by
  obtain ⟨next, hrest⟩ := hc
  have hperform : σ.store.perform (.updateSettings c) = _ :=
    hσ.keyed.updateSettings_of_mem hr hid
  have hτ := (hσ.of_reaches (reaches_serve σ i)).toConducted
  rw [serve_eq hrest hperform] at hτ ⊢
  refine ⟨mem_changeCounter.mpr (Or.inl ⟨r, hr, hid.symm, rfl⟩), fun hok => ?_⟩
  cases hdecode : (r.configured c).decode with
  | error f =>
    rw [hdecode] at hok
    cases hok
  | ok d =>
    rw [hdecode] at hτ
    have hlast := List.mem_append_right σ.trace (List.mem_singleton_self (i, Exchange.mk σ.store
      (.updateSettings c) (.ok d) (σ.store.changeCounter c.id fun r => r.configured c)))
    rcases hτ.succeeds_of_write hlast rfl rfl with hsucceeds | ⟨tenant, id, stamp, hretire⟩
    · exact hsucceeds
    · cases hretire

/-- What becomes of a retired counter. It stays as it is, whatever calls are under way, exactly if
every call that had found it before and is about to write its settings would write what is there.
Such a call writes them and succeeds; they are all that changes. Every call that looks for the
counter from then on is told that there is none. -/
theorem retired_kept_iff (hs : s.Keyed)
    (h : Reaches (.start s fun i => (jobs i).program service) σ) (hr : r ∈ σ.store.counters)
    (hretired : r.isLive = false) :
    ((∀ τ, Reaches σ τ → r ∈ τ.store.counters) ↔
      ∀ i c, σ.Poised i c → c.id = r.id → r.configured c = r) ∧
    (∀ i c, σ.Poised i c → c.id = r.id → r.configured c ∈ (σ.serve i).store.counters ∧
      ((r.configured c).decode.isOk = true → (σ.serve i).succeeds i = true)) ∧
    (∀ τ, Reaches σ τ → ∃ q ∈ τ.store.counters, r.Reconfigures q) ∧
    ∀ i, (jobs i).Configures r.id → σ.rest i = (jobs i).program service → ∀ τ, Reaches σ τ →
      τ.rest i = (jobs i).program service ∨ ∃ f, τ.rest i = .done (.error f) ∧
        ((∀ e ∈ τ.own i, e.Served) → f = .error (.notFound "counter" r.id.text)) := by
  have hσ := heeding_of_reaches hs h
  refine ⟨⟨fun hkept i c hc hid => ?_, fun hsame τ hτ => ?_⟩, fun i c hc hid => ?_,
    fun τ hτ => ?_, fun i hi hidle τ hτ => ?_⟩
  · have hwritten := (hσ.serve_poised hr hc hid).1
    have hserve := reaches_serve σ i
    exact (hσ.of_reaches hserve).keyed.counter_eq hwritten (hkept _ hserve) rfl
  · exact hσ.mem_of_reaches hr hretired hτ hsame
  · exact hσ.serve_poised hr hc hid
  · exact hσ.exists_reconfigures hr hretired hτ
  · exact hσ.failure_of_reaches hr hretired hτ hi hidle

/-- A counter is configured and deleted at the same time. -/
def meddling : Bool → Job
  | true => contestedJob (.updateCounter (.ofNat 5) { lead := some "INV" })
  | false => contestedJob (.deleteCounter (.ofNat 5))

/-- The first call has found the counter as the second one deletes it. -/
def deleted : Course Bool fun i => (meddling i).Answer :=
  (start contested fun i => (meddling i).program {}).replay [true, false, false]

def deletedRow : CounterRow :=
  (CounterRow.encode (contestedCounter (.ofNat 5) (some 2024))).retire
    (Service.stamp {} (meddling false).call)

theorem retired_kept_iff_deleted :
    deletedRow ∈ deleted.store.counters ∧ deletedRow.isLive = false ∧
      ¬ ∀ τ, Reaches deleted τ → deletedRow ∈ τ.store.counters := by
  have hmem : deletedRow ∈ deleted.store.counters := by decide +kernel
  obtain ⟨hkept, -⟩ := retired_kept_iff lawful_contested.toKeyed
    (reaches_replay (.start contested fun i => (meddling i).program {}) [true, false, false])
    hmem rfl
  refine ⟨hmem, rfl, fun h => ?_⟩
  have hsame := hkept.mp h true _ ⟨_, rfl⟩ rfl
  exact absurd hsame (by decide +kernel)

/-- A counter that a call has deleted is written to by another one, which succeeds. -/
theorem retired_configured :
    deleted.succeeds false = true ∧ deletedRow ∈ deleted.store.counters ∧
      Reaches deleted (deleted.serve true) ∧ (deleted.serve true).succeeds true = true ∧
      deletedRow ∉ (deleted.serve true).store.counters := by
  refine ⟨?_, ?_, reaches_serve deleted true, ?_, ?_⟩
  all_goals decide +kernel

end Run

end Docket
