import Docket.Proofs.Guarded

/-! # Runs that succeed

What a call has found and done where it was run on its own and has succeeded.
-/

namespace Docket

open Store Issuing

variable {α β : Type} {s t : Store} {step : Step}

theorem Store.commit_eq_ok_iff {x : Except StoreFailure (α × Store)} {a : α} :
    s.commit x = (.ok a, t) ↔ x = .ok (a, t) := by
  obtain f | ⟨b, u⟩ := x
  · exact ⟨nofun, nofun⟩
  · simp [commit]

namespace Action

/-- An action succeeds with an answer and leaves a store. -/
def Succeeds (x : Action α) (s : Store) (a : α) (t : Store) : Prop :=
  x.run.run s = (.ok a, t)

theorem succeeds_bind_iff {x : Action α} {f : α → Action β} {b : β} :
    Succeeds (x >>= f) s b t ↔ ∃ a u, x.Succeeds s a u ∧ (f a).Succeeds u b t := by
  unfold Succeeds
  rw [run_bind, Program.run_bind]
  obtain ⟨_ | a, u⟩ : Except Failure α × Store := x.run.run s
  · simp
  · simp

theorem succeeds_pure_iff {a b : α} : Succeeds (pure a) s b t ↔ b = a ∧ t = s := by
  change (Except.ok a, s) = (Except.ok b, t) ↔ _
  rw [Prod.mk.injEq, Except.ok.injEq, eq_comm, eq_comm (a := s)]

theorem not_succeeds_fail {e : DocumentsError} {a : α} : ¬ Succeeds (fail e) s a t := nofun

theorem succeeds_ask_iff {a : step.Result} :
    Succeeds (ask step) s a t ↔ s.perform step = (.ok a, t) := by
  unfold Succeeds
  rw [run_ask, Program.run_request]
  obtain ⟨_ | b, u⟩ := s.perform step
  · simp
  · simp

theorem succeeds_compute_iff {x : Except Overflow α} {a : α} :
    Succeeds (compute x) s a t ↔ x = .ok a ∧ t = s := by
  cases x with
  | ok b => exact succeeds_pure_iff.trans (and_congr_left' (by simp [eq_comm]))
  | error o => exact ⟨nofun, nofun⟩

theorem succeeds_check_iff {x : Except Violation Unit} {u : Unit} :
    Succeeds (check x) s u t ↔ x = .ok () ∧ t = s := by
  cases x with
  | ok => exact succeeds_pure_iff.trans (and_congr_left' (by simp))
  | error v => exact ⟨nofun, nofun⟩

theorem succeeds_found_iff {resource id : String} {x : Option α} {a : α} :
    Succeeds (found resource id x) s a t ↔ x = some a ∧ t = s := by
  cases x with
  | some b => exact succeeds_pure_iff.trans (and_congr_left' (by simp [eq_comm]))
  | none => exact ⟨nofun, nofun⟩

end Action

namespace Service

open Docket.Action

variable {service : Service} {call : Call}

theorem succeeds_scope_iff {tenant : Id} :
    Succeeds (scope call) s tenant t ↔ call.caller.tenant = some tenant ∧ t = s := by
  unfold scope
  cases call.caller.tenant with
  | some id => exact succeeds_pure_iff.trans (and_congr_left' (by simp [eq_comm]))
  | none => exact ⟨nofun, nofun⟩

theorem succeeds_start_iff {u : Unit} :
    Succeeds (start call) s u t ↔ call.caller.cancelled = false ∧ t = s := by
  unfold start
  cases call.caller.cancelled with
  | true => exact ⟨nofun, nofun⟩
  | false => exact succeeds_pure_iff.trans (and_congr_left' (by simp))

theorem succeeds_load_iff {tenant id : Id} {d : Document} :
    Succeeds (load tenant id) s d t ↔ s.findDocument tenant id = .ok (some d) ∧ t = s := by
  unfold load
  rw [succeeds_bind_iff]
  constructor
  · rintro ⟨x, u, hask, hfound⟩
    obtain ⟨hfind, rfl⟩ := Prod.ext_iff.mp (succeeds_ask_iff.mp hask)
    obtain ⟨rfl, rfl⟩ := succeeds_found_iff.mp hfound
    exact ⟨hfind, rfl⟩
  · rintro ⟨hfind, rfl⟩
    exact ⟨some d, t, succeeds_ask_iff.mpr (Prod.ext hfind rfl), succeeds_found_iff.mpr ⟨rfl, rfl⟩⟩

/-- However often it may be tried, a request that succeeds has been carried out once. -/
theorem succeeds_attempt_iff {a : step.Result}
    (hfailed : ∀ f, (s.perform step).1 = .error f → (s.perform step).2 = s) :
    Succeeds (service.attempt step) s a t ↔ s.perform step = (.ok a, t) := by
  unfold Succeeds
  rw [run_attempt, Program.run_retrying_bind hfailed]
  obtain ⟨_ | b, u⟩ := s.perform step
  · simp
  · simp

theorem changeStatus_succeeds {id : Id} {target : Status} {reason : Option String}
    {outcome : Outcome Document}
    (h : (service.changeStatus call id target reason).Succeeds s outcome t) :
    ∃ tenant d, call.caller.tenant = some tenant ∧ s.findDocument tenant id = .ok (some d) ∧
      d.checkChange target = .ok .valid ∧
      ∃ saved, s.applyChange (service.changed call d target (d.version + 1)) d.version
          (service.change call d target reason (d.version + 1)) = .ok (saved, t) ∧
        outcome = ⟨saved, [.statusChanged
          (.of tenant (service.change call d target reason (d.version + 1)))]⟩ := by
  unfold changeStatus at h
  simp only [succeeds_bind_iff, succeeds_scope_iff, succeeds_start_iff, succeeds_load_iff,
    succeeds_compute_iff] at h
  obtain ⟨tenant, _, ⟨htenant, rfl⟩, -, _, ⟨-, rfl⟩, d, _, ⟨hfind, rfl⟩, h⟩ := h
  obtain ⟨verdict, _, ⟨hverdict, rfl⟩, h⟩ := h
  cases verdict with
  | rejected objection => exact absurd h not_succeeds_fail
  | valid =>
    simp only [succeeds_bind_iff, succeeds_compute_iff] at h
    obtain ⟨version, _, ⟨hversion, rfl⟩, h⟩ := h
    obtain rfl := eq_of_succ? hversion
    obtain ⟨saved, _, hask, hpure⟩ := succeeds_bind_iff.mp h
    obtain ⟨rfl, rfl⟩ := succeeds_pure_iff.mp hpure
    have hchange := commit_eq_ok_iff.mp (succeeds_ask_iff.mp hask)
    exact ⟨tenant, d, htenant, hfind, hverdict, saved, hchange, rfl⟩

theorem generateNumber_succeeds {documentType : Id} {series : String} {outcome : Outcome Number}
    (h : (service.generateNumber call documentType series).Succeeds s outcome t) :
    ∃ tenant c, call.caller.tenant = some tenant ∧
      s.advance (service.allocation call ⟨tenant, documentType, series⟩) = .ok (c, t) ∧
      outcome = ⟨c.number, [.numberAllocated (.of tenant c.number (service.stamp call))]⟩ := by
  unfold generateNumber at h
  simp only [succeeds_bind_iff, succeeds_scope_iff, succeeds_check_iff, succeeds_start_iff] at h
  obtain ⟨tenant, _, ⟨htenant, rfl⟩, -, _, ⟨-, rfl⟩, -, _, ⟨-, rfl⟩, h⟩ := h
  obtain ⟨_, _, hacquire, h⟩ := succeeds_bind_iff.mp h
  obtain ⟨c, _, hattempt, hpure⟩ := succeeds_bind_iff.mp h
  obtain ⟨rfl, rfl⟩ := succeeds_pure_iff.mp hpure
  obtain rfl := congrArg Prod.snd (succeeds_ask_iff.mp hacquire)
  have hadvance := commit_eq_ok_iff.mp <| (succeeds_attempt_iff fun _ hf => by
    exact (commit_error hf).2).mp hattempt
  exact ⟨tenant, c, htenant, hadvance, rfl⟩

theorem assignNumber_succeeds {id : Id} {series : String} {outcome : Outcome Document}
    (h : (service.assignNumber call id series).Succeeds s outcome t) :
    ∃ tenant d documentType, call.caller.tenant = some tenant ∧
      s.findDocument tenant id = .ok (some d) ∧
      checkUnnumbered d = .ok () ∧ numberingType d = .ok documentType ∧
      ∃ saved, s.assignNumber { d with version := d.version + 1, updated := service.stamp call }
          d.version (service.allocation call ⟨tenant, documentType, series⟩) = .ok (saved, t) ∧
        outcome = ⟨saved.1, [.numberAllocated (.of tenant saved.2 (service.stamp call)),
          .numberAssigned (.of saved.1 (service.stamp call))]⟩ := by
  unfold assignNumber at h
  simp only [succeeds_bind_iff, succeeds_scope_iff, succeeds_start_iff, succeeds_load_iff] at h
  obtain ⟨tenant, _, ⟨htenant, rfl⟩, -, _, ⟨-, rfl⟩, d, _, ⟨hfind, rfl⟩, h⟩ := h
  cases hunnumbered : checkUnnumbered d with
  | error clash =>
    rw [hunnumbered] at h
    exact absurd h not_succeeds_fail
  | ok =>
    rw [hunnumbered] at h
    cases htype : numberingType d with
    | error violation =>
      rw [htype] at h
      exact absurd h not_succeeds_fail
    | ok documentType =>
      rw [htype] at h
      simp only [succeeds_bind_iff, succeeds_compute_iff] at h
      obtain ⟨version, _, ⟨hversion, rfl⟩, h⟩ := h
      obtain rfl := eq_of_succ? hversion
      obtain ⟨_, _, hacquire, h⟩ := succeeds_bind_iff.mp h
      obtain ⟨saved, _, hattempt, hpure⟩ := succeeds_bind_iff.mp h
      obtain ⟨rfl, rfl⟩ := succeeds_pure_iff.mp hpure
      obtain rfl := congrArg Prod.snd (succeeds_ask_iff.mp hacquire)
      have hassign := commit_eq_ok_iff.mp <| (succeeds_attempt_iff fun _ hf => by
        exact (commit_error hf).2).mp hattempt
      exact ⟨tenant, d, documentType, htenant, hfind, hunnumbered, htype, saved, hassign, rfl⟩

theorem succeeds_liveCounter_iff {tenant id : Id} {c : Counter} :
    Succeeds (liveCounter tenant id) s c t ↔ s.findCounter tenant id = .ok (some c) ∧ t = s := by
  unfold liveCounter
  rw [succeeds_bind_iff]
  constructor
  · rintro ⟨x, u, hask, hfound⟩
    obtain ⟨hfind, rfl⟩ := Prod.ext_iff.mp (succeeds_ask_iff.mp hask)
    obtain ⟨rfl, rfl⟩ := succeeds_found_iff.mp hfound
    exact ⟨hfind, rfl⟩
  · rintro ⟨hfind, rfl⟩
    exact ⟨some c, t, succeeds_ask_iff.mpr (Prod.ext hfind rfl), succeeds_found_iff.mpr ⟨rfl, rfl⟩⟩

theorem createCounter_succeeds {new : NewCounter} {outcome : Outcome Counter}
    (h : (service.createCounter call new).Succeeds s outcome t) :
    ∃ tenant c, call.caller.tenant = some tenant ∧ checkNewCounter new = .ok () ∧
      s.findCounterByKey tenant new.key = .ok none ∧
      s.insertCounter (service.newCounter call tenant new) = (.ok c, t) ∧
      outcome = ⟨c, [.counterCreated (.of c (service.stamp call))]⟩ := by
  unfold createCounter at h
  simp only [succeeds_bind_iff, succeeds_scope_iff, succeeds_check_iff, succeeds_start_iff] at h
  obtain ⟨tenant, _, ⟨htenant, rfl⟩, -, _, ⟨hcheck, rfl⟩, -, s, ⟨-, rfl⟩, h⟩ := h
  obtain ⟨found, _, hfind, h⟩ := succeeds_bind_iff.mp h
  obtain ⟨hfound, rfl⟩ := Prod.ext_iff.mp (succeeds_ask_iff.mp hfind)
  cases found with
  | some c => exact absurd h nofun
  | none =>
    let step : Step := .insertCounter (service.newCounter call tenant new)
    cases hinsert : s.insertCounter (service.newCounter call tenant new) with
    | mk reply u =>
      have hperform : s.perform step = (reply, u) := hinsert
      change (Program.request step _).run s = (Except.ok outcome, t) at h
      rw [Program.run_request, hperform] at h
      cases reply with
      | error f => exact absurd h nofun
      | ok c =>
        obtain ⟨rfl, rfl⟩ := succeeds_pure_iff.mp h
        exact ⟨tenant, c, htenant, hcheck, hfound, hinsert, rfl⟩

theorem updateCounter_succeeds {id : Id} {settings : CounterSettings} {outcome : Outcome Counter}
    (h : (service.updateCounter call id settings).Succeeds s outcome t) :
    ∃ tenant c d, call.caller.tenant = some tenant ∧ checkSettings settings = .ok () ∧
      s.findCounter tenant id = .ok (some c) ∧
      s.updateSettings { c with settings := settings, updated := service.stamp call }
        = (.ok d, t) ∧
      outcome = ⟨d, [.counterUpdated (.of d (service.stamp call))]⟩ := by
  unfold updateCounter at h
  simp only [succeeds_bind_iff, succeeds_scope_iff, succeeds_check_iff, succeeds_start_iff,
    succeeds_liveCounter_iff] at h
  obtain ⟨tenant, _, ⟨htenant, rfl⟩, -, _, ⟨hcheck, rfl⟩, -, _, ⟨-, rfl⟩, h⟩ := h
  obtain ⟨c, _, ⟨hfind, rfl⟩, h⟩ := h
  obtain ⟨d, _, hask, hpure⟩ := succeeds_bind_iff.mp h
  obtain ⟨rfl, rfl⟩ := succeeds_pure_iff.mp hpure
  exact ⟨tenant, c, d, htenant, hcheck, hfind, succeeds_ask_iff.mp hask, rfl⟩

theorem deleteCounter_succeeds {id : Id} {outcome : Outcome Unit}
    (h : (service.deleteCounter call id).Succeeds s outcome t) :
    ∃ tenant c, call.caller.tenant = some tenant ∧ s.findCounter tenant id = .ok (some c) ∧
      s.retireCounter tenant id (service.stamp call) = (true, t) ∧
      outcome = ⟨(), [.counterRetired (.of c (service.stamp call))]⟩ := by
  unfold deleteCounter at h
  simp only [succeeds_bind_iff, succeeds_scope_iff, succeeds_start_iff,
    succeeds_liveCounter_iff] at h
  obtain ⟨tenant, _, ⟨htenant, rfl⟩, -, _, ⟨-, rfl⟩, c, _, ⟨hfind, rfl⟩, h⟩ := h
  obtain ⟨retired, _, hask, h⟩ := succeeds_bind_iff.mp h
  obtain ⟨hretired, rfl⟩ := Prod.ext_iff.mp (succeeds_ask_iff.mp hask)
  cases retired with
  | false => exact absurd h not_succeeds_fail
  | true =>
    obtain ⟨rfl, rfl⟩ := succeeds_pure_iff.mp h
    exact ⟨tenant, c, htenant, hfind, Prod.ext (Except.ok.inj hretired) rfl, rfl⟩

theorem createDocument_succeeds {new : NewDocument} {outcome : Outcome Document}
    (h : (service.createDocument call new).Succeeds s outcome t) :
    ∃ tenant d, call.caller.tenant = some tenant ∧
      s.insertDocument (service.newDocument call tenant new) = .ok (d, t) ∧
      outcome = ⟨d, [.documentCreated (.of d (service.stamp call))]⟩ := by
  unfold createDocument at h
  simp only [succeeds_bind_iff, succeeds_scope_iff, succeeds_check_iff, succeeds_start_iff] at h
  obtain ⟨tenant, _, ⟨htenant, rfl⟩, -, _, ⟨-, rfl⟩, -, _, ⟨-, rfl⟩, h⟩ := h
  obtain ⟨d, _, hask, hpure⟩ := succeeds_bind_iff.mp h
  obtain ⟨rfl, rfl⟩ := succeeds_pure_iff.mp hpure
  exact ⟨tenant, d, htenant, commit_eq_ok_iff.mp (succeeds_ask_iff.mp hask), rfl⟩

end Service

end Docket
