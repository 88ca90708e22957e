import Docket.Proofs.Admission
import Docket.Proofs.Directory
import Docket.Proofs.Success

/-! # Counters as a map

The operations on counters work on the directory of their tenant as on a map. Each of them looks up,
adds, changes or removes one entry; an allocation may move one to another key that no entry has.
Retired counters are in no directory and never come back to one.
-/

namespace Docket

open Store Issuing Simulation

variable {α : Type} {s t : Store} {step : Step}

namespace Action

variable {f : step.Result → Action α} {a : step.Result}

theorem run_ask_bind_of_ok (h : s.perform step = (.ok a, t)) :
    (ask step >>= f).run.run s = (f a).run.run t := by
  rw [run_ask_bind, Program.run_request, h]

end Action

namespace Service

open Docket.Action

variable {service : Service} {call : Call} {tenant : Id} {key : CounterKey} {id : Id} {c : Counter}

/-- What a call answers that is run on its own, and what it leaves of the store. -/
def execute (service : Service) (call : Call) (request : Request) (s : Store) :
    Except Failure (Outcome request.Answer) × Store :=
  (service.serve call request).run.run s

theorem run_scope_bind (hcall : call.ActsFor tenant) (f : Id → Action α) :
    (scope call >>= f).run = (f tenant).run := by
  rw [scope, hcall.scope]
  rfl

theorem run_start_bind (hcall : call.ActsFor tenant) (f : Unit → Action α) :
    (start call >>= f).run = (f ()).run := by
  rw [start, hcall.going]
  rfl

theorem run_check_bind {x : Except Violation Unit} (hx : x = .ok ()) (f : Unit → Action α) :
    (check x >>= f).run = (f ()).run := by
  rw [hx]
  rfl

theorem run_liveCounter_bind (h : s.findCounter tenant id = .ok (some c)) (f : Counter → Action α) :
    (liveCounter tenant id >>= f).run.run s = (f c).run.run s := by
  have hperform : s.perform (.findCounter tenant id) = (.ok (some c), s) := Prod.ext h rfl
  rw [liveCounter, Action.bind_assoc]
  exact run_ask_bind_of_ok hperform

theorem run_liveCounter_bind_of_none (h : s.findCounter tenant id = .ok none)
    (f : Counter → Action α) :
    (liveCounter tenant id >>= f).run.run s
      = (.error (.error (.notFound "counter" id.text)), s) := by
  have hperform : s.perform (.findCounter tenant id) = (.ok none, s) := Prod.ext h rfl
  rw [liveCounter, Action.bind_assoc]
  exact run_ask_bind_of_ok hperform

theorem run_load_bind (f : Document → Action α) :
    (load tenant id >>= f).run.run s
      = match s.findDocument tenant id with
        | .error e => (.error e.toFailure, s)
        | .ok none => (.error (.error (.notFound "document" id.text)), s)
        | .ok (some d) => (f d).run.run s := by
  rw [load, Action.bind_assoc, run_ask_bind, Program.run_request, perform]
  cases s.findDocument tenant id with
  | error e => rfl
  | ok found => cases found <;> rfl

section Lookup

variable (hcall : call.ActsFor tenant)

include hcall

theorem execute_getCounter (h : s.findCounterByKey tenant key = .ok (some c)) :
    service.execute call (.getCounter key) s = (.ok ⟨c, []⟩, s) := by
  have hperform : s.perform (.findCounterByKey tenant key) = (.ok (some c), s) :=
    Prod.ext h rfl
  change (getCounter call key).run.run s = _
  rw [getCounter, run_scope_bind hcall, run_start_bind hcall]
  exact run_ask_bind_of_ok hperform

theorem execute_getCounter_of_none (h : s.findCounterByKey tenant key = .ok none) :
    service.execute call (.getCounter key) s
      = (.error (.error (.notFound "counter" key.text)), s) := by
  have hperform : s.perform (.findCounterByKey tenant key) = (.ok none, s) :=
    Prod.ext h rfl
  change (getCounter call key).run.run s = _
  rw [getCounter, run_scope_bind hcall, run_start_bind hcall]
  exact run_ask_bind_of_ok hperform

theorem execute_listCounters {counters : List Counter} (h : s.listCounters tenant = .ok counters) :
    service.execute call .listCounters s = (.ok ⟨counters, []⟩, s) := by
  have hperform : s.perform (.listCounters tenant) = (.ok counters, s) :=
    Prod.ext h rfl
  change (listCounters call).run.run s = _
  rw [listCounters, run_scope_bind hcall, run_start_bind hcall]
  exact run_ask_bind_of_ok hperform

theorem execute_createCounter_of_some {new : NewCounter} (hnew : checkNewCounter new = .ok ())
    (h : s.findCounterByKey tenant new.key = .ok (some c)) :
    service.execute call (.createCounter new) s
      = (.error (.error (Clash.counterExists new.key).error), s) := by
  have hperform : s.perform (.findCounterByKey tenant new.key) = (.ok (some c), s) :=
    Prod.ext h rfl
  change (service.createCounter call new).run.run s = _
  rw [createCounter, run_scope_bind hcall, run_check_bind hnew, run_start_bind hcall]
  exact run_ask_bind_of_ok hperform

theorem execute_createCounter {new : NewCounter} (hnew : checkNewCounter new = .ok ())
    (h : s.findCounterByKey tenant new.key = .ok none)
    (hinsert : s.insertCounter (service.newCounter call tenant new) = (.ok c, t)) :
    service.execute call (.createCounter new) s
      = (.ok ⟨c, [.counterCreated (.of c (service.stamp call))]⟩, t) := by
  have hperform : s.perform (.findCounterByKey tenant new.key) = (.ok none, s) :=
    Prod.ext h rfl
  change (service.createCounter call new).run.run s = _
  rw [createCounter, run_scope_bind hcall, run_check_bind hnew, run_start_bind hcall]
  refine (run_ask_bind_of_ok hperform).trans ?_
  change (Program.request (.insertCounter (service.newCounter call tenant new)) _).run s = _
  rw [Program.run_request, perform, hinsert]
  rfl

theorem execute_updateCounter {settings : CounterSettings}
    (hsettings : checkSettings settings = .ok ())
    (h : s.findCounter tenant id = .ok (some c)) {d : Counter}
    (hupdate : s.updateSettings { c with settings := settings, updated := service.stamp call }
      = (.ok d, t)) :
    service.execute call (.updateCounter id settings) s
      = (.ok ⟨d, [.counterUpdated (.of d (service.stamp call))]⟩, t) := by
  change (service.updateCounter call id settings).run.run s = _
  rw [updateCounter, run_scope_bind hcall, run_check_bind hsettings, run_start_bind hcall,
    run_liveCounter_bind h]
  have hperform : s.perform (.updateSettings _) = (.ok d, t) := hupdate
  exact run_ask_bind_of_ok hperform

theorem execute_updateCounter_of_none {settings : CounterSettings}
    (hsettings : checkSettings settings = .ok ()) (h : s.findCounter tenant id = .ok none) :
    service.execute call (.updateCounter id settings) s
      = (.error (.error (.notFound "counter" id.text)), s) := by
  change (service.updateCounter call id settings).run.run s = _
  rw [updateCounter, run_scope_bind hcall, run_check_bind hsettings, run_start_bind hcall,
    run_liveCounter_bind_of_none h]
  rfl

theorem execute_deleteCounter (h : s.findCounter tenant id = .ok (some c))
    (hretire : s.retireCounter tenant id (service.stamp call) = (true, t)) :
    service.execute call (.deleteCounter id) s
      = (.ok ⟨(), [.counterRetired (.of c (service.stamp call))]⟩, t) := by
  change (service.deleteCounter call id).run.run s = _
  have hperform : s.perform (.retireCounter tenant id (service.stamp call)) = (.ok true, t) := by
    rw [perform, hretire]
  rw [deleteCounter, run_scope_bind hcall, run_start_bind hcall, run_liveCounter_bind h]
  exact run_ask_bind_of_ok hperform

theorem execute_deleteCounter_of_none (h : s.findCounter tenant id = .ok none) :
    service.execute call (.deleteCounter id) s
      = (.error (.error (.notFound "counter" id.text)), s) := by
  change (service.deleteCounter call id).run.run s = _
  rw [deleteCounter, run_scope_bind hcall, run_start_bind hcall, run_liveCounter_bind_of_none h]
  rfl

end Lookup

end Service

namespace Store

variable {tenant : Id} {key : CounterKey} {id : Id} {b c : Counter} {q r : CounterRow}

theorem Legible.findCounterByKey (hs : s.Legible) :
    s.findCounterByKey tenant key = .ok (s.directory tenant key) := by
  cases hentry : s.directory tenant key with
  | none =>
    exact findCounterByKey_eq_none_iff.mpr (hs.directory_eq_none_iff.mp hentry)
  | some c =>
    obtain ⟨hc, hkey⟩ := hs.directory_eq_some_iff.mp hentry
    exact hs.findCounterByKey_eq_some_iff.mpr ⟨hc, hkey, hs.storable hc⟩

theorem Legible.findCounter_of_entry (hs : s.Legible) (h : s.directory tenant c.key = some c) :
    s.findCounter tenant c.id = .ok (some c) := by
  obtain ⟨hc, -⟩ := hs.directory_eq_some_iff.mp h
  exact hs.findCounter_eq_some_iff.mpr ⟨hc, rfl, hs.storable hc⟩

theorem Legible.findCounter_of_none (hs : s.Legible)
    (h : ∀ key c, s.directory tenant key = some c → c.id ≠ id) :
    s.findCounter tenant id = .ok none := by
  refine findCounter_eq_none_iff.mpr fun r hr => ?_
  obtain ⟨c, rfl, -⟩ := hs.exists_counter hr
  exact h c.key c (hs.directory_eq_some_iff.mpr ⟨hr, rfl⟩)

/-- To years after the year 0 live keys are as good as keys. -/
theorem key_eq_of_liveKey (hq : ∀ y ∈ q.year, 0 < y) (hr : ∀ y ∈ r.year, 0 < y)
    (h : q.liveKey = r.liveKey) : q.tenant = r.tenant ∧ q.key = r.key := by
  obtain ⟨hstream, hyears⟩ := liveKey_eq_iff.mp h
  obtain ⟨htenant, htype, hseries⟩ := Stream.mk.inj hstream
  have hyear : q.year = r.year := by
    cases hqy : q.year with
    | none =>
      cases hry : r.year with
      | none => rfl
      | some z =>
        have := hr z hry
        rw [hqy, hry] at hyears
        exact absurd hyears (Int.ne_of_lt this)
    | some y =>
      have hpos := hq y hqy
      cases hry : r.year with
      | none =>
        rw [hqy, hry] at hyears
        exact absurd hyears (Int.ne_of_gt hpos)
      | some z =>
        rw [hqy, hry] at hyears
        exact congrArg some hyears
  refine ⟨htenant, ?_⟩
  rw [CounterRow.key, CounterRow.key, htype, hseries, hyear]

theorem insertCounter_eq_ok_iff {b : Counter} :
    s.insertCounter b = (.ok c, t) ↔
      c = b ∧ b.Storable ∧ s.addCounter (.encode b) = .ok t := by
  unfold insertCounter
  cases hadd : s.addCounter (.encode b) with
  | error f => simp
  | ok u =>
    simp only [Prod.mk.injEq, lift_eq_ok_iff, CounterRow.decode_eq_ok_iff, Except.ok.injEq]
    constructor
    · rintro ⟨⟨hb, hc⟩, hu⟩
      obtain rfl := encode_injective hb
      exact ⟨rfl, hc, hu⟩
    · rintro ⟨rfl, hc, hu⟩
      exact ⟨⟨rfl, hc⟩, hu⟩

theorem Legible.exists_insertCounter (hs : s.Legible) (hnone : s.directory c.tenant c.key = none)
    (hlive : c.isLive) (hc : c.Storable) (hyear : ∀ y ∈ c.year, 0 < y)
    (hfresh : ∀ r ∈ s.counters, r.id ≠ c.id) :
    ∃ t, s.insertCounter c = (.ok c, t) ∧ s.Written c t := by
  have hkey : ∀ q ∈ s.counters, q.isLive → q.liveKey ≠ (CounterRow.encode c).liveKey := by
    intro q hq hql hqc
    obtain ⟨b, rfl, -, hb⟩ := hs.legible q hq
    obtain ⟨htenant, hkey⟩ := key_eq_of_liveKey hb hyear hqc
    exact hs.directory_eq_none_iff.mp hnone _ (mem_liveCounters.mpr ⟨hq, htenant, hql⟩) hkey
  have hadd := addCounter_eq_ok_iff.mpr ⟨fun _ => hkey, hfresh, rfl⟩
  refine ⟨_, ?_, written_of_addCounter hadd hlive⟩
  rw [insertCounter, hadd]
  simp only [CounterRow.decode_encode hc, lift]

theorem Legible.directory_of_entry (hs : s.Legible) (ht : t.Legible) (h : s.Written c t)
    (hold : ∀ q ∈ s.counters, q.id = c.id → q.tenant = c.tenant ∧ q.key = c.key) :
    t.directory = Function.update s.directory c.tenant
      (Function.update (s.directory c.tenant) c.key (some c)) := by
  rw [hs.directory_of_written ht h hold (Or.inl rfl), Function.update_idem]

theorem Legible.exists_retireCounter (hs : s.Legible) (hc : .encode c ∈ s.liveCounters tenant)
    (stamp : Stamp) :
    ∃ t, s.retireCounter tenant c.id stamp = (true, t) ∧
      ∀ owner q, q ∈ t.liveCounters owner ↔ q ∈ s.liveCounters owner ∧ q.id ≠ c.id := by
  obtain ⟨hmem, htenant, hlive⟩ := mem_liveCounters.mp hc
  have hany : ((s.liveCounters tenant).any fun r => decide (r.id = c.id)) = true :=
    List.any_eq_true.mpr ⟨_, hc, decide_eq_true rfl⟩
  refine ⟨_, if_pos hany, fun owner q => ?_⟩
  rw [mem_liveCounters, mem_liveCounters, List.mem_map]
  constructor
  · rintro ⟨⟨r, hr, rfl⟩, howner, hql⟩
    split at howner
    · next hretired =>
      rw [if_pos hretired] at hql
      cases hql
    · next hkept =>
      rw [if_neg hkept] at hql ⊢
      refine ⟨⟨hr, howner, hql⟩, fun hid => hkept ?_⟩
      obtain rfl := hs.counter_eq hr hmem hid
      exact ⟨rfl, htenant, hlive⟩
  · rintro ⟨⟨hq, howner, hql⟩, hid⟩
    exact ⟨⟨q, hq, if_neg fun hretired => hid hretired.1⟩, howner, hql⟩

theorem Legible.exists_listCounters (hs : s.Legible) (tenant : Id) :
    ∃ counters, s.listCounters tenant = .ok counters ∧
      (counters.Pairwise fun a b => a.key.Precedes b.key) ∧
      ∀ c, c ∈ counters ↔ s.directory tenant c.key = some c := by
  obtain ⟨counters, hcounters⟩ := CounterRow.exists_decodeAll_iff.mpr fun r hr =>
    hs.exists_counter (List.mem_mergeSort.mp hr)
  obtain ⟨hrows, -⟩ := CounterRow.decodeAll_eq_ok_iff.mp hcounters
  refine ⟨counters, lift_eq_ok_iff.mpr hcounters, ?_, fun c => ?_⟩
  · have hpairwise := hs.pairwise_listed tenant
    rw [hrows, List.pairwise_map] at hpairwise
    exact hpairwise
  · have hlisted : CounterRow.encode c ∈ s.liveCounters tenant
        ↔ CounterRow.encode c ∈ counters.map CounterRow.encode := by
      rw [← hrows, List.mem_mergeSort]
    rw [hs.directory_eq_some_iff, and_iff_left rfl, hlisted]
    exact ⟨List.mem_map_of_mem, mem_of_encode⟩

end Store

/-- What an allocation makes of a directory, with the counter that it leaves. -/
inductive Issuing.Allocation.Takes (a : Allocation) (d : Directory) : Counter → Directory → Prop
  /-- An entry goes on under its key. -/
  | advances {c : Counter} (stays : ¬ a.Rolls c) (stream : c.stream = a.stream)
      (entry : d c.key = some c) :
      Takes a d { c with value := c.value + 1, updated := a.stamp }
        (Function.update d c.key (some { c with value := c.value + 1, updated := a.stamp }))
  /-- An entry that starts again moves to the year of the allocation, which no entry has. -/
  | rekeys {c : Counter} (rolls : a.Rolls c) (stream : c.stream = a.stream)
      (entry : d c.key = some c) (free : d { c.key with year := some a.year } = none) :
      Takes a d { c with year := some a.year, value := 1, updated := a.stamp }
        (Function.update (Function.update d c.key none) { c.key with year := some a.year }
          (some { c with year := some a.year, value := 1, updated := a.stamp }))
  | adds (free : d a.firstCounter.key = none) :
      Takes a d a.firstCounter (Function.update d a.firstCounter.key (some a.firstCounter))

namespace Store

variable {a : Allocation} {c : Counter}

theorem Advances.takes {u : Store} (h : s.Advances a c u) (hs : s.Legible) (ht : t.Legible)
    (hcounters : t.counters = u.counters) :
    ∃ d, a.Takes (s.directory a.stream.tenant) c d ∧
      t.directory = Function.update s.directory a.stream.tenant d := by
  have hwritten : s.Written c t := ⟨h.isLive, fun _ => hcounters ▸ h.mem_counters⟩
  cases h with
  | first rows selected keyFree idFree =>
    refine ⟨_, .adds ?_, hs.directory_of_entry ht hwritten fun q hq hid => absurd hid (idFree q hq)⟩
    refine hs.directory_eq_none_iff.mpr fun r hr hkey => ?_
    obtain ⟨hr, htenant, hlive⟩ := mem_liveCounters.mp hr
    exact keyFree r hr hlive (liveKey_eq_of_key (r := .encode a.firstCounter) htenant hkey)
  | @next counters b rows selected fits keyFree =>
    obtain ⟨hb, hstream, hlive, -⟩ := mem_of_rows rows (mem_of_select? selected)
    have htenant : b.tenant = a.stream.tenant := congrArg Stream.tenant hstream
    have hmem : .encode b ∈ s.liveCounters b.tenant := mem_liveCounters.mpr ⟨hb, rfl, hlive⟩
    have hentry := hs.directory_eq_some_iff.mpr ⟨hmem, rfl⟩
    rw [← htenant]
    by_cases hrolls : a.Rolls b
    · rw [Allocation.next_of_rolls hrolls] at hwritten keyFree ⊢
      refine ⟨_, .rekeys hrolls hstream hentry ?_, hs.directory_of_written ht hwritten ?_ ?_⟩
      · refine hs.directory_eq_none_iff.mpr fun r hr hkey => ?_
        obtain ⟨hr, hrtenant, hrlive⟩ := mem_liveCounters.mp hr
        have hid := keyFree r hr hrlive (liveKey_eq_of_key hrtenant hkey)
        obtain rfl := hs.counter_eq hr hb hid
        exact hrolls.2 (congrArg CounterKey.year hkey)
      · intro q hq hid
        rw [hs.counter_eq hq hb hid]
        exact ⟨rfl, rfl⟩
      · exact Or.inr ⟨_, hmem, rfl⟩
    · rw [Allocation.next_of_not_rolls hrolls] at hwritten ⊢
      refine ⟨_, .advances hrolls hstream hentry, hs.directory_of_entry ht hwritten ?_⟩
      intro q hq hid
      rw [hs.counter_eq hq hb hid]
      exact ⟨rfl, rfl⟩

/-- An allocation has a plan unless the value of an entry of its stream is used up. -/
theorem Legible.plans (hs : s.Legible)
    (hroom : ∀ key c, s.directory a.stream.tenant key = some c →
      c.documentType = a.stream.documentType → c.series = a.stream.series →
      c.value + 1 < int64Bound) : s.plans a := by
  obtain ⟨counters, hcounters⟩ : ∃ counters,
      CounterRow.decodeAll (s.streamRows a.stream) = .ok counters :=
    CounterRow.exists_decodeAll_iff.mpr fun r hr => by
      obtain ⟨c, hc, hstorable, -⟩ := hs.legible r (mem_streamRows.mp hr).1
      exact ⟨c, hc, hstorable⟩
  refine plans_iff.mpr ⟨counters, hcounters, ?_⟩
  cases hselect : select? counters a.year with
  | none => exact ⟨_, Allocation.plan_of_none hselect⟩
  | some c =>
    obtain ⟨hc, hstream, hlive, -⟩ := mem_of_rows hcounters (mem_of_select? hselect)
    obtain ⟨htenant, htype, hseries⟩ := Stream.mk.inj hstream
    have hentry := hs.directory_eq_some_iff.mpr
      ⟨mem_liveCounters.mpr ⟨hc, htenant, hlive⟩, rfl⟩
    have hvalue := hroom c.key c hentry htype hseries
    refine ⟨_, (Allocation.plan_of_some hselect).trans (if_pos ?_)⟩
    by_cases hrolls : a.Rolls c
    · rw [Allocation.next_of_rolls hrolls]
      exact (by decide : (1 : Int) < int64Bound)
    · rw [Allocation.next_of_not_rolls hrolls]
      exact hvalue

theorem Legible.of_perform {reply : step.Reply} (hs : s.Legible) (hstep : step.Dated)
    (h : s.perform step = (reply, t)) : t.Legible := by
  have ht := Replies.legible .served hs hstep
  rwa [h] at ht

end Store

section Execute

open Service

variable {service : Service} {call : Call} {request : Request} {tenant : Id}

/-- A call that hands out a number has taken it from the directory of its tenant. -/
theorem Store.Legible.exists_takes {outcome : Outcome request.Answer} (hs : s.Legible)
    (hcall : call.ActsFor tenant) (hyear : 0 < call.now.year) (hrequest : request.asksNumber = true)
    (h : service.execute call request s = (.ok outcome, t)) :
    ∃ stream c d, stream.tenant = tenant ∧ Hands service call request outcome stream c.number ∧
      (service.allocation call stream).Takes (s.directory tenant) c d ∧
      t.directory = Function.update s.directory tenant d := by
  cases request with
  | generateNumber documentType series =>
    obtain ⟨owner, c, howner, hadvance, rfl⟩ := generateNumber_succeeds h
    obtain rfl := Option.some.inj (howner.symm.trans hcall.scope)
    have hperform : s.perform (.allocate (service.allocation call ⟨owner, documentType, series⟩))
        = (.ok c, t) := by
      rw [perform, hadvance]
      rfl
    have hdated : Step.Dated
      (.allocate (service.allocation call ⟨owner, documentType, series⟩)) := hyear
    have hadvances := hs.advance_eq_ok_iff.mp hadvance
    obtain ⟨d, htakes, hdirectory⟩ := hadvances.takes hs (hs.of_perform hdated hperform) rfl
    exact ⟨_, c, d, rfl, .generated howner, htakes, hdirectory⟩
  | assignNumber id series =>
    obtain ⟨owner, b, documentType, howner, -, -, htype, ⟨e, n⟩, hassign, rfl⟩ :=
      assignNumber_succeeds h
    obtain rfl := Option.some.inj (howner.symm.trans hcall.scope)
    let step : Step := .assignNumber
      { b with version := b.version + 1, updated := service.stamp call } b.version
      (service.allocation call ⟨owner, documentType, series⟩)
    have hdated : step.Dated := hyear
    have hperform : s.perform step = (.ok (e, n), t) := by
      rw [perform, hassign]
      rfl
    obtain ⟨c, u, hadvance, rfl, rfl, hchange⟩ := assignNumber_eq_ok_iff.mp hassign
    have hcounters : t.counters = u.counters := by rw [(changeDocument_eq_ok_iff.mp hchange).2]
    have hadvances := hs.advance_eq_ok_iff.mp hadvance
    obtain ⟨d, htakes, hdirectory⟩ :=
      hadvances.takes hs (hs.of_perform hdated hperform) hcounters
    refine ⟨_, c, d, rfl, .assigned howner ?_ rfl, htakes, hdirectory⟩
    exact documentType_of_numberingType htype
  | _ => cases hrequest

theorem Store.Legible.exists_generateNumber {documentType : Id} {series : String} (hs : s.Legible)
    (hcall : call.ActsFor tenant) (hyear : InYears call)
    (hdefaults : 1 ≤ service.defaults.padding ∧ service.defaults.padding ≤ 10)
    (htype : documentType.isNil = false) (hfresh : ∀ r ∈ s.counters, r.id ≠ call.fresh)
    (hroom : ∀ key c, s.directory tenant key = some c → c.documentType = documentType →
      c.series = series → c.value + 1 < int64Bound) :
    ∃ outcome t, service.execute call (.generateNumber documentType series) s
      = (.ok outcome, t) := by
  let a := service.allocation call ⟨tenant, documentType, series⟩
  have hadmits : s.Admits a :=
    { plans := hs.plans hroom
      padding := hdefaults
      yearFits := ⟨Int.le_trans (by decide) (Int.le_of_lt hyear.1), hyear.2⟩
      fresh := hfresh }
  obtain ⟨c, t, hadvance⟩ := hadmits.exists_advance (Int.ne_of_gt hyear.1) hs.toLawful
  have hperform : s.perform (.allocate a) = (.ok c, t) := by
    rw [perform, hadvance]
    rfl
  refine ⟨⟨c.number, [.numberAllocated (.of tenant c.number (service.stamp call))]⟩, t, ?_⟩
  change (service.generateNumber call documentType series).run.run s = _
  have hfailed : ∀ f, (s.perform (.allocate a)).1 = .error f → (s.perform (.allocate a)).2 = s :=
    fun f hf => (commit_error hf).2
  rw [run_generateNumber hcall.scope hcall.going (checkDocumentType_eq_ok_iff.mpr htype),
    Program.run_request]
  refine (Program.run_retrying_bind hfailed _ _).trans ?_
  rw [hperform]
  rfl

/-- Operations work on the counters of a tenant as on a map from their keys. -/
structure ActsAsMap (service : Service) (s : Store) (tenant : Id) : Prop where
  /-- Each live row is that of an entry. -/
  rows : ∀ r ∈ s.liveCounters tenant, ∃ c : Counter, r = .encode c
  entries : ∀ key c, s.directory tenant key = some c ↔
    .encode c ∈ s.liveCounters tenant ∧ c.key = key
  get : ∀ call key, call.ActsFor tenant → service.execute call (.getCounter key) s
    = (match s.directory tenant key with
        | some c => .ok ⟨c, []⟩
        | none => .error (.error (.notFound "counter" key.text)), s)
  /-- A key that an entry has is not taken twice. -/
  clash : ∀ call new c, call.ActsFor tenant → checkNewCounter new = .ok () →
    s.directory tenant new.key = some c → service.execute call (.createCounter new) s
      = (.error (.error (.conflict ("Counter already exists: " ++ new.key.text))), s)
  create : ∀ call new, call.ActsFor tenant → checkNewCounter new = .ok () →
    (Request.createCounter new).YearFits → (∀ r ∈ s.counters, r.id ≠ call.fresh) →
    s.directory tenant new.key = none → ∃ (c : Counter) (events : List Audit.Event) (t : Store),
      service.execute call (.createCounter new) s = (.ok ⟨c, events⟩, t) ∧
        c.id = call.fresh ∧ c.key = new.key ∧ c.value = new.start ∧ c.settings = new.settings ∧
        t.directory = Function.update s.directory tenant
          (Function.update (s.directory tenant) new.key (some c))
  delete : ∀ call c, call.ActsFor tenant → s.directory tenant c.key = some c →
    ∃ (events : List Audit.Event) (t : Store),
      service.execute call (.deleteCounter c.id) s = (.ok ⟨(), events⟩, t) ∧
        t.directory = Function.update s.directory tenant
          (Function.update (s.directory tenant) c.key none)
  update : ∀ call c settings, call.ActsFor tenant → checkSettings settings = .ok () →
    s.directory tenant c.key = some c →
    ∃ (events : List Audit.Event) (t : Store),
      service.execute call (.updateCounter c.id settings) s
        = (.ok ⟨{ c with settings := settings, updated := service.stamp call }, events⟩, t) ∧
        t.directory = Function.update s.directory tenant (Function.update (s.directory tenant) c.key
          (some { c with settings := settings, updated := service.stamp call }))
  /-- An identifier that no entry has is not found. -/
  missing : ∀ call id, call.ActsFor tenant →
    (∀ key c, s.directory tenant key = some c → c.id ≠ id) →
    service.execute call (.deleteCounter id) s
        = (.error (.error (.notFound "counter" id.text)), s) ∧
      ∀ settings, checkSettings settings = .ok () →
        service.execute call (.updateCounter id settings) s
          = (.error (.error (.notFound "counter" id.text)), s)
  /-- A number is taken by moving an entry on, to another key if need be, or by adding one. -/
  take : ∀ call (request : Request) (outcome : Outcome request.Answer) (t : Store),
    call.ActsFor tenant → 0 < call.now.year → request.asksNumber = true →
    service.execute call request s = (.ok outcome, t) →
    ∃ stream c d, stream.tenant = tenant ∧ Hands service call request outcome stream c.number ∧
      (service.allocation call stream).Takes (s.directory tenant) c d ∧
      t.directory = Function.update s.directory tenant d
  /-- Calls that fail leave all directories as they are. -/
  fail : ∀ call (request : Request) f (t : Store), request.YearFits →
    service.execute call request s = (.error f, t) → t.directory = s.directory
  /-- A number is only refused where the values of an entry of its stream are used up. -/
  room : ∀ call documentType series, call.ActsFor tenant → InYears call →
    (1 ≤ service.defaults.padding ∧ service.defaults.padding ≤ 10) →
    documentType.isNil = false → (∀ r ∈ s.counters, r.id ≠ call.fresh) →
    (∀ key c, s.directory tenant key = some c → c.documentType = documentType →
      c.series = series → c.value + 1 < int64Bound) →
    ∃ outcome t, service.execute call (.generateNumber documentType series) s = (.ok outcome, t)
  /-- Each entry is listed once, at the place of its key. -/
  list : ∀ call, call.ActsFor tenant → ∃ counters : List Counter,
    service.execute call .listCounters s = (.ok ⟨counters, []⟩, s) ∧
      (counters.Pairwise fun a b => a.key.Precedes b.key) ∧
      ∀ c, c ∈ counters ↔ s.directory tenant c.key = some c

theorem Store.Legible.actsAsMap (hs : s.Legible) (service : Service) (tenant : Id) :
    ActsAsMap service s tenant := by
  constructor
  case rows =>
    intro r hr
    obtain ⟨c, hc, -⟩ := hs.exists_counter hr
    exact ⟨c, hc⟩
  case entries => exact fun key c => hs.directory_eq_some_iff
  case get =>
    intro call key hcall
    have hfind : s.findCounterByKey tenant key = _ := hs.findCounterByKey
    cases hentry : s.directory tenant key with
    | none => exact execute_getCounter_of_none hcall (hentry ▸ hfind)
    | some c => exact execute_getCounter hcall (hentry ▸ hfind)
  case clash =>
    intro call new c hcall hnew hentry
    have hfind : s.findCounterByKey tenant new.key = _ := hs.findCounterByKey
    exact execute_createCounter_of_some hcall hnew (hentry ▸ hfind)
  case create =>
    intro call new hcall hnew hfits hfresh hnone
    have hfind : s.findCounterByKey tenant new.key = _ := hs.findCounterByKey
    have hpadding := padding_of_checkSettings (settings_of_checkNewCounter hnew)
    have hdated : (Step.insertCounter (service.newCounter call tenant new)).Dated :=
      ⟨⟨hpadding, hfits⟩, year_of_checkNewCounter hnew⟩
    obtain ⟨t, hinsert, hwritten⟩ := hs.exists_insertCounter
      (c := service.newCounter call tenant new) hnone rfl hdated.1 hdated.2 hfresh
    have hcreate := execute_createCounter hcall hnew (hnone ▸ hfind) hinsert
    refine ⟨_, _, t, hcreate, rfl, rfl, rfl, rfl, ?_⟩
    refine hs.directory_of_entry (hs.of_perform hdated hinsert) hwritten fun q hq hid => ?_
    exact absurd hid (hfresh q hq)
  case delete =>
    intro call c hcall hentry
    obtain ⟨hc, -⟩ := hs.directory_eq_some_iff.mp hentry
    obtain ⟨t, hretire, hlive⟩ := hs.exists_retireCounter hc (service.stamp call)
    let step : Step := .retireCounter tenant c.id (service.stamp call)
    have hstep : step.Dated := trivial
    have hperform : s.perform step = (.ok true, t) := by
      rw [perform, hretire]
    refine ⟨_, t, execute_deleteCounter hcall (hs.findCounter_of_entry hentry) hretire, ?_⟩
    exact hs.directory_of_retired (hs.of_perform hstep hperform) hc hlive
  case update =>
    intro call c settings hcall hsettings hentry
    obtain ⟨hc, -⟩ := hs.directory_eq_some_iff.mp hentry
    obtain ⟨hmem, htenant, hlive⟩ := mem_liveCounters.mp hc
    have hpadding := padding_of_checkSettings hsettings
    have hupdate := hs.updateSettings_eq hmem (service.stamp call)
      ⟨hpadding, (hs.storable hc).year⟩
    have hwritten := hs.written_of_configured hmem hlive settings (service.stamp call)
    have hdated : Step.Dated
        (.updateSettings { c with settings := settings, updated := service.stamp call }) :=
      hpadding
    obtain rfl : c.tenant = tenant := htenant
    have hfind := hs.findCounter_of_entry hentry
    refine ⟨_, _, execute_updateCounter hcall hsettings hfind hupdate, ?_⟩
    refine hs.directory_of_entry (hs.of_perform hdated hupdate) hwritten fun q hq hid => ?_
    rw [hs.counter_eq hq hmem hid]
    exact ⟨rfl, rfl⟩
  case missing =>
    intro call id hcall hnone
    have hfind := hs.findCounter_of_none hnone
    refine ⟨execute_deleteCounter_of_none hcall hfind, fun settings hsettings => ?_⟩
    exact execute_updateCounter_of_none hcall hsettings hfind
  case take =>
    intro call request outcome t hcall hyear hrequest h
    exact hs.exists_takes hcall hyear hrequest h
  case fail =>
    intro call request f t hrequest h
    rw [(keeps_serve service call hs.toKeyed hrequest).run h]
  case room =>
    intro call documentType series hcall hyear hdefaults htype hfresh hroom
    exact hs.exists_generateNumber hcall hyear hdefaults htype hfresh hroom
  case list =>
    intro call hcall
    obtain ⟨counters, hlist, hsorted, hmem⟩ := hs.exists_listCounters tenant
    exact ⟨counters, execute_listCounters hcall hlist, hsorted, hmem⟩

end Execute

section Run

open Course

variable {ι : Type} [DecidableEq ι] {service : Service} {jobs : ι → Job}
  {σ : Course ι fun i => (jobs i).Answer}

/-- To calls of clocks in years after the year 0 the live counters of each tenant are a map from
their keys, which no counter comes back to once it is retired. -/
theorem counters_act_as_map (hjobs : ∀ i, (jobs i).InPositiveYears)
    (h : Reaches (.start {} fun i => (jobs i).program service) σ) :
    (∀ tenant, ActsAsMap service σ.store tenant) ∧
      ∀ r ∈ σ.store.counters, r.isLive = false → ∀ τ, Reaches σ τ →
        ∀ tenant key c, τ.store.directory tenant key = some c → c.id ≠ r.id := by
  have hlegible := legible_of_reaches hjobs h
  refine ⟨fun tenant => hlegible.actsAsMap service tenant, ?_⟩
  intro r hr hretired τ hτ tenant key c hentry hid
  have hlater := legible_of_reaches hjobs (h.trans hτ)
  obtain ⟨hc, -⟩ := hlater.directory_eq_some_iff.mp hentry
  obtain ⟨hc, -, hlive⟩ := mem_liveCounters.mp hc
  obtain ⟨q, hq, hpersists⟩ := persists_of_reaches hlegible.toKeyed hτ r hr
  obtain rfl := hlater.counter_eq hq hc (hpersists.id.trans hid.symm)
  obtain ⟨time, htime⟩ := Option.isSome_iff_exists.mp (Option.isNone_eq_false_iff.mp hretired)
  rw [CounterRow.isLive, hpersists.retired time htime] at hlive
  cases hlive

theorem counters_act_as_map_turned :
    ActsAsMap {} turned.store firstStream.tenant ∧
      (turned.store.directory firstStream.tenant ⟨firstStream.documentType, "", some 2026⟩).map
        (fun c => (c.id, c.value)) = some (.ofNat 2, 1) := by
  have hjobs : ∀ i, (turning i).InPositiveYears
    | 0 => ⟨trivial, by decide⟩
    | 1 => ⟨trivial, by decide⟩
    | 2 => ⟨trivial, by decide⟩
  exact ⟨(counters_act_as_map hjobs (reaches_replay _ _)).1 _, by decide +kernel⟩

end Run

end Docket
