import Docket.Proofs.Conduct
import Docket.Proofs.Lookup

/-! # Failing calls

A call changes the store with one request at most, and succeeds as soon as that request has done so.
Hence a call that fails, for whatever reason and after whatever requests were refused, leaves the
store as it was.
-/

namespace Docket

open Store Issuing Simulation

variable {α β : Type} {s t : Store} {step : Step}

namespace Program

/-- As long as it has not succeeded, a program leaves a store as it was. -/
def Keeps (s : Store) : Program (Except Failure α) → Prop
  | done _ => True
  | request step next => ∀ reply t, s.Replies step reply t →
      t = s ∧ (next reply).Keeps s ∨ ∃ a, next reply = done (.ok a)

theorem Keeps.run {p : Program (Except Failure α)} (hp : p.Keeps s) {f : Failure}
    (h : p.run s = (.error f, t)) : t = s := by
  induction p with
  | done a => exact (Prod.ext_iff.mp h).2.symm
  | request step next ih =>
    rw [run_request] at h
    rcases hp _ _ .served with ⟨hstore, hnext⟩ | ⟨a, ha⟩
    · rw [hstore] at h
      exact ih _ hnext h
    · rw [ha] at h
      cases (Prod.ext_iff.mp h).1

end Program

namespace Issuing

theorem padding_of_checkSettings {settings : CounterSettings}
    (h : checkSettings settings = .ok ()) : 1 ≤ settings.padding ∧ settings.padding ≤ 10 := by
  unfold checkSettings checkPadding at h
  split at h
  · next hp => exact hp
  · cases h

theorem settings_of_checkNewCounter {new : NewCounter} (h : checkNewCounter new = .ok ()) :
    checkSettings new.settings = .ok () := by
  unfold checkNewCounter at h
  cases htype : checkDocumentType new.key.documentType with
  | error v => simp [htype, bind, Except.bind] at h
  | ok =>
    cases hsettings : checkSettings new.settings with
    | error v => simp [htype, hsettings, bind, Except.bind] at h
    | ok => rfl

end Issuing

namespace Store

theorem insertCounter_error {c : Counter} (hc : c.Storable) {f : StoreFailure}
    (h : (s.insertCounter c).1 = .error f) : (s.insertCounter c).2 = s := by
  unfold insertCounter at h ⊢
  cases hadd : s.addCounter (.encode c) with
  | error e => rfl
  | ok t =>
    simp only [hadd, CounterRow.decode_encode hc, lift] at h
    cases h

theorem Keyed.updateSettings_of_mem (hs : s.Keyed) {r : CounterRow} {c : Counter}
    (hr : r ∈ s.counters) (hid : c.id = r.id) :
    s.updateSettings c
      = (lift (r.configured c).decode, s.changeCounter c.id fun r => r.configured c) := by
  have hfind : (s.counters.find? fun q => q.id = c.id) = some r := hid ▸ hs.find?_counter hr
  simp only [updateSettings, hfind]

theorem Keyed.updateSettings_eq (hs : s.Keyed) {c : Counter} {settings : CounterSettings}
    (hc : .encode c ∈ s.counters) (updated : Stamp)
    (hstorable : { c with settings := settings, updated := updated : Counter }.Storable) :
    s.updateSettings { c with settings := settings, updated := updated }
      = (.ok { c with settings := settings, updated := updated },
        s.changeCounter c.id fun r =>
          r.configured { c with settings := settings, updated := updated }) := by
  have hconfigured : (CounterRow.encode c).configured
      { c with settings := settings, updated := updated }
      = .encode { c with settings := settings, updated := updated } := rfl
  rw [hs.updateSettings_of_mem (c := { c with settings := settings, updated := updated }) hc rfl,
    hconfigured, CounterRow.decode_encode hstorable, lift]

theorem retireCounter_of_false {tenant id : Id} {stamp : Stamp}
    (h : (s.retireCounter tenant id stamp).1 = false) :
    (s.retireCounter tenant id stamp).2 = s := by
  unfold retireCounter at h ⊢
  split at h
  · cases h
  · next hn => rw [if_neg hn]

end Store

namespace Request

/-- Years in requests have 32 bits. -/
def YearFits : Request → Prop
  | createCounter new => ∀ y ∈ new.key.year, -int32Bound ≤ y ∧ y < int32Bound
  | _ => True

end Request

/-- Where a store has told a call what it goes on from, a request of the call that fails leaves the
store as it was. -/
theorem Request.Prompts.store_of_error {service : Service} {call : Call} {tenant : Id}
    {request : Request} {told : List Response}
    (h : request.Prompts service call tenant told step) (hs : s.Keyed) (hrequest : request.YearFits)
    (htold : ∀ r ∈ told, ∃ t, s.Replies r.step r.reply t) (f : StoreFailure)
    (hfailed : (s.perform step).1 = .error f) : (s.perform step).2 = s := by
  cases h with
  | opening =>
    cases request with
    | createDocument => exact (commit_error hfailed).2
    | _ => rfl
  | allocate | assign | change => exact (commit_error hfailed).2
  | insert checked =>
    have hpadding := padding_of_checkSettings (settings_of_checkNewCounter checked)
    exact insertCounter_error ⟨hpadding, hrequest⟩ hfailed
  | configure checked =>
    obtain ⟨t, hreplies⟩ := htold _ List.mem_cons_self
    obtain ⟨hlisted, -, hstorable⟩ := mem_of_findCounter (congrArg Prod.fst hreplies.perform_eq)
    have hupdate := hs.updateSettings_eq (List.mem_filter.mp hlisted).1 (service.stamp call)
      ⟨padding_of_checkSettings checked, hstorable.year⟩
    cases (congrArg Prod.fst hupdate).symm.trans hfailed
  | retire => cases hfailed
  | lock => rfl

namespace Service

variable {service : Service} {call : Call} {request : Request}

theorem Conducts.keeps {p : Program (Except Failure (Outcome request.Answer))}
    {told : List Response} (h : service.Conducts call request p told) (hs : s.Keyed)
    (hrequest : request.YearFits) (htold : ∀ r ∈ told, ∃ t, s.Replies r.step r.reply t) :
    p.Keeps s := by
  induction p generalizing told with
  | done a => exact trivial
  | request step next ih =>
    intro reply t hreplies
    obtain ⟨⟨tenant, -, prompted⟩, hnext⟩ := h
    have hnext : service.Conducts call request (next reply) (told ++ [⟨step, reply⟩]) :=
      hnext reply
    have htold' : ∀ r ∈ told ++ [⟨step, reply⟩], ∃ t, s.Replies r.step r.reply t := by
      intro r hr
      rcases List.mem_append.mp hr with hr | hr
      · exact htold r hr
      · exact List.mem_singleton.mp hr ▸ ⟨t, hreplies⟩
    have hkeeps := ih reply hnext htold'
    cases hwrite : Scene.isWrite step with
    | false => exact Or.inl ⟨hreplies.of_read hwrite, hkeeps⟩
    | true =>
      cases reply with
      | error f =>
        exact Or.inl ⟨hreplies.of_error (prompted.store_of_error hs hrequest htold), hkeeps⟩
      | ok a =>
        have hlast := List.mem_append_right told (List.mem_singleton_self ⟨step, .ok a⟩)
        obtain ⟨b, hb, hconcludes⟩ := hnext.done_of_write hlast hwrite rfl
        rcases hconcludes.succeeds_of_write hlast hwrite rfl with
          ⟨outcome, rfl⟩ | ⟨owner, id, stamp, hretire⟩
        · exact Or.inr ⟨outcome, hb⟩
        · cases hretire
          have hfalse := hreplies.perform_eq
          refine Or.inl ⟨?_, hkeeps⟩
          exact (congrArg Prod.snd hfalse).symm.trans
            (retireCounter_of_false (Except.ok.inj (congrArg Prod.fst hfalse)))

/-- No call changes the store and fails. -/
theorem keeps_serve (service : Service) (call : Call) {request : Request} (hs : s.Keyed)
    (hrequest : request.YearFits) : (service.serve call request).run.Keeps s :=
  (service.conducts_serve call request).keeps hs hrequest fun _ hr => absurd hr List.not_mem_nil

end Service

/-- What a call reports: nothing unless it succeeds. -/
def Job.events (job : Job) : job.Answer → List Audit.Event
  | .ok outcome => outcome.events
  | .error _ => []

theorem keeps_of_reaches {β : Type} {p : Program (Except Failure β)}
    {σ : Course Unit fun _ => Except Failure β} (hp : p.Keeps s)
    (h : Course.Reaches (.start s fun _ => p) σ) :
    σ.store = s ∧ (σ.rest ()).Keeps s ∨ ∃ a, σ.rest () = .done (.ok a) := by
  induction h with
  | refl => exact Or.inl ⟨rfl, hp⟩
  | tail _ hmove ih =>
    obtain ⟨hrest, hreplies⟩ := hmove
    rcases ih with ⟨rfl, hkeeps⟩ | ⟨a, hdone⟩
    · rw [hrest] at hkeeps
      rw [Course.reply_rest_self]
      exact hkeeps _ _ hreplies
    · cases hrest.symm.trans hdone

/-- A call that fails leaves the store as it was and reports nothing, be it run on its own or with
any of its requests refused. -/
theorem failed_call_keeps_store (service : Service) (job : Job) (hs : s.Keyed)
    (hjob : job.request.YearFits) :
    (∀ f t, (job.program service).run s = (.error f, t) → t = s ∧ job.events (.error f) = []) ∧
      ∀ (σ : Course Unit fun _ => job.Answer) (f : Failure),
        Course.Reaches (.start s fun _ => job.program service) σ →
          σ.rest () = .done (.error f) → σ.store = s ∧ job.events (.error f) = [] := by
  have hkeeps := Service.keeps_serve service job.call hs hjob
  refine ⟨fun f t h => ⟨hkeeps.run h, rfl⟩, fun σ f h hdone => ⟨?_, rfl⟩⟩
  rcases keeps_of_reaches hkeeps h with ⟨hstore, -⟩ | ⟨a, hok⟩
  · exact hstore
  · cases Program.done.inj (hdone.symm.trans hok)

/-- A store with a counter that cannot be read: its padding is out of range. -/
def unreadable : Store :=
  { counters :=
      [{ id := .ofNat 2, tenant := .ofNat 1, documentType := .ofNat 3, series := ""
         year := none, value := 7, lead := none, padding := 99, pattern := none, resets := false
         notes := none, created := ⟨default, ""⟩, updated := ⟨default, ""⟩
         retired := none }] }

def unreadableUpdate : Job :=
  { call :=
      { caller := { tenant := some (.ofNat 1) }
        now := default
        fresh := .ofNat 4 }
    request := .updateCounter (.ofNat 2) {} }

theorem failed_call_keeps_unreadable :
    ∃ f t, (unreadableUpdate.program {}).run unreadable = (.error f, t) ∧ t = unreadable := by
  have hkeyed : unreadable.Keyed := ⟨List.nodup_singleton _, List.nodup_nil⟩
  have hrun : ∃ f t, (unreadableUpdate.program {}).run unreadable = (.error f, t) :=
    ⟨_, _, rfl⟩
  obtain ⟨f, t, h⟩ := hrun
  exact ⟨f, t, h, ((failed_call_keeps_store {} unreadableUpdate hkeyed trivial).1 f t h).1⟩

end Docket
