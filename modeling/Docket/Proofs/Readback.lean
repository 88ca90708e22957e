import Docket.Proofs.Recall
import Docket.Proofs.Vacancy

/-! # Answers that are read back

What a call that writes answers is what the store then holds: the counter or document that it
answers is found by whoever asks for it next. Nothing else has changed.
-/

namespace Docket

open Store Issuing

namespace Store

variable {s t : Store} {b c d : Counter}

theorem Advances.written {a : Allocation} (h : s.Advances a c t) : s.Written c t :=
  ⟨h.isLive, fun _ => h.mem_counters⟩

theorem Keyed.updateSettings_eq_ok (hs : s.Keyed) (hb : .encode b ∈ s.counters)
    (hlive : b.isLive) {settings : CounterSettings} {updated : Stamp}
    (h : s.updateSettings { b with settings := settings, updated := updated } = (.ok c, t)) :
    c = { b with settings := settings, updated := updated } ∧ c.Storable ∧ s.Written c t := by
  rw [hs.updateSettings_of_mem (c := { b with settings := settings, updated := updated }) hb rfl,
    Prod.mk.injEq, lift_eq_ok_iff] at h
  obtain ⟨hdecode, rfl⟩ := h
  obtain ⟨hencode, hstorable⟩ := CounterRow.decode_eq_ok_iff.mp hdecode
  obtain rfl : { b with settings := settings, updated := updated } = c := encode_injective hencode
  exact ⟨rfl, hstorable, hs.written_of_configured hb hlive settings updated⟩

theorem Lawful.of_applyChange (hs : s.Lawful) {d saved : Document} {expected : Int}
    {change : StatusChange} (h : s.applyChange d expected change = .ok (saved, t)) : t.Lawful := by
  have hlawful := hs.perform (.applyChange d expected change)
  rwa [Store.perform, h] at hlawful

theorem Lawful.of_assignNumber (hs : s.Lawful) {d : Document} {expected : Int} {a : Allocation}
    {saved : Document × Number} (h : s.assignNumber d expected a = .ok (saved, t)) :
    t.Lawful := by
  have hlawful := hs.perform (.assignNumber d expected a)
  rwa [Store.perform, h] at hlawful

section Written

variable (h : s.Written c t) (hc : c.Storable)

include h hc

theorem Written.findCounter (ht : t.Keyed) : t.findCounter c.tenant c.id = .ok (some c) :=
  ht.findCounter_eq_some_iff.mpr ⟨h.mem_liveCounters_iff.mpr (Or.inl ⟨rfl, rfl⟩), rfl, hc⟩

theorem Written.findCounterByKey (ht : t.Lawful) :
    t.findCounterByKey c.tenant c.key = .ok (some c) :=
  ht.findCounterByKey_eq_some_iff.mpr ⟨h.mem_liveCounters_iff.mpr (Or.inl ⟨rfl, rfl⟩), rfl, hc⟩

end Written

end Store

namespace Service

variable {service : Service} {call : Call} {s t : Store} {tenant : Id} {c : Counter}
  {d : Document}

/-- A counter is stored for a tenant, and is what is found by its identifier and answered for its
key. Nothing else has changed. -/
structure ShowsCounter (service : Service) (s : Store) (tenant : Id) (c : Counter) (t : Store) :
    Prop where
  written : s.Written c t
  found : t.findCounter tenant c.id = .ok (some c)
  answered : ∀ next : Call, next.ActsFor tenant →
    service.execute next (.getCounter c.key) t = (.ok ⟨c, []⟩, t)
  others : s.Agrees t

/-- A document is stored for a tenant, and is what is answered for its identifier. No other document
has changed, and no line of any. -/
structure ShowsDocument (service : Service) (s : Store) (tenant : Id) (d : Document) (t : Store) :
    Prop where
  rows : ∀ r, r ∈ t.documents ↔ r = .encode d ∨ r ∈ s.documents ∧ r.id ≠ d.id
  lines : t.lines = s.lines
  answered : ∀ next : Call, next.ActsFor tenant →
    service.execute next (.getDocument d.id) t = (.ok ⟨d, []⟩, t)

theorem showsCounter_of_written (h : s.Written c t) (hc : c.Storable) (ht : t.Lawful)
    (htenant : c.tenant = tenant) (hothers : s.Agrees t) :
    ShowsCounter service s tenant c t := by
  subst htenant
  exact ⟨h, h.findCounter hc ht.toKeyed, fun next hnext =>
    execute_getCounter hnext (h.findCounterByKey hc ht), hothers⟩

theorem showsDocument_of_replaces {e : Document} (h : s.Replaces e d t) (ht : t.Keyed)
    (htenant : e.tenant = tenant) : ShowsDocument service s tenant d t := by
  refine ⟨fun r => h.id ▸ h.mem_documents, h.lines, fun next hnext => ?_⟩
  have hheld : t.Holds d := h.holds_iff.mpr (Or.inl rfl)
  exact execute_getDocument hnext
    (ht.findDocument_eq_some_iff.mpr ⟨h.tenant.trans htenant, rfl, hheld⟩)

theorem showsCounter_of_createCounter {new : NewCounter} {outcome : Outcome Counter}
    (hs : s.Lawful) (htenant : call.caller.tenant = some tenant)
    (h : service.execute call (.createCounter new) s = (.ok outcome, t)) :
    ShowsCounter service s tenant outcome.value t := by
  obtain ⟨owner, c, howner, -, -, hinsert, rfl⟩ := createCounter_succeeds h
  obtain rfl := Option.some.inj (howner.symm.trans htenant)
  obtain ⟨rfl, hstorable, hadd⟩ := insertCounter_eq_ok_iff.mp hinsert
  refine showsCounter_of_written (written_of_addCounter hadd rfl) hstorable (hs.add hadd) rfl ?_
  obtain ⟨-, -, rfl⟩ := addCounter_eq_ok_iff.mp hadd
  exact agrees_counters s _

theorem showsCounter_of_updateCounter {id : Id} {settings : CounterSettings}
    {outcome : Outcome Counter} (hs : s.Lawful) (htenant : call.caller.tenant = some tenant)
    (h : service.execute call (.updateCounter id settings) s = (.ok outcome, t)) :
    outcome.value.id = id ∧ ShowsCounter service s tenant outcome.value t := by
  obtain ⟨owner, b, c, howner, -, hfind, hupdate, rfl⟩ := updateCounter_succeeds h
  obtain rfl := Option.some.inj (howner.symm.trans htenant)
  obtain ⟨hmem, rfl, -⟩ := mem_of_findCounter hfind
  obtain ⟨hmem, hbtenant, hlive⟩ := mem_liveCounters.mp hmem
  obtain ⟨rfl, hstorable, hwritten⟩ := hs.updateSettings_eq_ok hmem hlive hupdate
  let step : Step := .updateSettings { b with settings := settings, updated := service.stamp call }
  have hperform : (s.perform step).2 = t := congrArg Prod.snd hupdate
  have hagrees : s.Agrees (s.perform step).2 := hs.agrees_perform rfl
  refine ⟨rfl, showsCounter_of_written hwritten hstorable ?_ hbtenant (hperform ▸ hagrees)⟩
  exact hperform ▸ hs.perform step

/-- An allocation stores the counter that is planned from the rows of its stream. -/
theorem exists_plan_of_advance {a : Allocation} (hs : s.Lawful) (h : s.advance a = .ok (c, t)) :
    ∃ counters write, CounterRow.decodeAll (s.streamRows a.stream) = .ok counters ∧
      a.plan counters = .ok write ∧ write.counter = c ∧
      ShowsCounter service s a.stream.tenant c t := by
  have hadvances := hs.advance_eq_ok_iff.mp h
  obtain ⟨counters, write, hrows, hplan, hwrite, -⟩ := hadvances.exists_plan hs.toKeyed
  refine ⟨counters, write, hrows, hplan, hwrite, ?_⟩
  exact showsCounter_of_written hadvances.written hadvances.storable (hadvances.lawful hs)
    (congrArg Stream.tenant hadvances.stream) (hadvances.tables ▸ agrees_counters s t.counters)

theorem showsDocument_of_changeStatus {id : Id} {target : Status} {reason : Option String}
    {outcome : Outcome Document} (hs : s.Lawful) (htenant : call.caller.tenant = some tenant)
    (h : service.execute call (.changeStatus id target reason) s = (.ok outcome, t)) :
    outcome.value.id = id ∧ ShowsDocument service s tenant outcome.value t ∧
      t.counters = s.counters := by
  obtain ⟨owner, d, howner, hfind, -, saved, hchange, rfl⟩ := changeStatus_succeeds h
  obtain rfl := Option.some.inj (howner.symm.trans htenant)
  obtain ⟨hdtenant, rfl, hheld⟩ := hs.findDocument_eq_some_iff.mp hfind
  have hcounters := applyChange_counters hchange
  obtain ⟨-, hreplaces, -⟩ := hheld.replaces_of_applyChange hs.toKeyed hchange
  have ht := (hs.of_applyChange hchange).toKeyed
  exact ⟨hreplaces.id, showsDocument_of_replaces hreplaces ht hdtenant, hcounters⟩

theorem showsDocument_of_assignNumber {id : Id} {series : String} {outcome : Outcome Document}
    (hs : s.Lawful) (htenant : call.caller.tenant = some tenant)
    (h : service.execute call (.assignNumber id series) s = (.ok outcome, t)) :
    outcome.value.id = id ∧ ShowsDocument service s tenant outcome.value t ∧
      ∃ documentType counters write, outcome.value.documentType = some documentType ∧
        CounterRow.decodeAll (s.streamRows ⟨tenant, documentType, series⟩) = .ok counters ∧
        (service.allocation call ⟨tenant, documentType, series⟩).plan counters = .ok write ∧
        s.Written write.counter t ∧ outcome.value.number = some write.counter.number.formatted := by
  obtain ⟨owner, d, documentType, howner, hfind, -, htype, saved, hassign, rfl⟩ :=
    assignNumber_succeeds h
  obtain rfl := Option.some.inj (howner.symm.trans htenant)
  obtain ⟨hdtenant, rfl, hheld⟩ := hs.findDocument_eq_some_iff.mp hfind
  obtain ⟨c, u, hadvances, rfl, hreplaces, hcounters, -⟩ :=
    hheld.replaces_of_assignNumber hs hassign
  obtain ⟨counters, write, hrows, hplan, rfl, -⟩ := hadvances.exists_plan hs.toKeyed
  have ht := (hs.of_assignNumber hassign).toKeyed
  have hwritten : s.Written write.counter t :=
    ⟨hadvances.isLive, fun q => hcounters ▸ hadvances.mem_counters⟩
  exact ⟨hreplaces.id, showsDocument_of_replaces hreplaces ht hdtenant, documentType, counters,
    write, documentType_of_numberingType htype, hrows, hplan, hwritten, rfl⟩

/-- What a call answers that writes a counter or a document is what is stored, and is read back by
every call after it; nothing else has changed. A number is that of the counter that was planned
from the rows of its stream, which is stored as it was planned. -/
theorem answers_read_back (hs : s.Lawful) (htenant : call.caller.tenant = some tenant) :
    (∀ new outcome t, service.execute call (.createCounter new) s = (.ok outcome, t) →
      ShowsCounter service s tenant outcome.value t) ∧
    (∀ id settings outcome t,
      service.execute call (.updateCounter id settings) s = (.ok outcome, t) →
      outcome.value.id = id ∧ ShowsCounter service s tenant outcome.value t) ∧
    (∀ documentType series outcome t,
      service.execute call (.generateNumber documentType series) s = (.ok outcome, t) →
      ∃ counters write,
        CounterRow.decodeAll (s.streamRows ⟨tenant, documentType, series⟩) = .ok counters ∧
        (service.allocation call ⟨tenant, documentType, series⟩).plan counters = .ok write ∧
        ShowsCounter service s tenant write.counter t ∧
        outcome.value = write.counter.number) ∧
    (∀ id target reason outcome t,
      service.execute call (.changeStatus id target reason) s = (.ok outcome, t) →
      outcome.value.id = id ∧ ShowsDocument service s tenant outcome.value t ∧
        t.counters = s.counters) ∧
    (∀ id series outcome t,
      service.execute call (.assignNumber id series) s = (.ok outcome, t) →
      outcome.value.id = id ∧ ShowsDocument service s tenant outcome.value t ∧
        ∃ documentType counters write, outcome.value.documentType = some documentType ∧
          CounterRow.decodeAll (s.streamRows ⟨tenant, documentType, series⟩) = .ok counters ∧
          (service.allocation call ⟨tenant, documentType, series⟩).plan counters = .ok write ∧
          s.Written write.counter t ∧
          outcome.value.number = some write.counter.number.formatted) := by
  refine ⟨?created, ?updated, ?generated, ?changed, ?assigned⟩
  case created => exact fun _ _ _ h => showsCounter_of_createCounter hs htenant h
  case updated => exact fun _ _ _ _ h => showsCounter_of_updateCounter hs htenant h
  case generated =>
    intro documentType series outcome t h
    obtain ⟨owner, c, howner, hadvance, rfl⟩ := generateNumber_succeeds h
    obtain rfl := Option.some.inj (howner.symm.trans htenant)
    obtain ⟨counters, write, hrows, hplan, rfl, hshows⟩ := exists_plan_of_advance hs hadvance
    exact ⟨counters, write, hrows, hplan, hshows, rfl⟩
  case changed => exact fun _ _ _ _ _ h => showsDocument_of_changeStatus hs htenant h
  case assigned => exact fun _ _ _ _ h => showsDocument_of_assignNumber hs htenant h

def cancellation : Job := contestedJob (.changeStatus contestedDraft.id .cancelled none)

theorem answers_read_back_contested :
    ∃ outcome t,
      execute {} cancellation.call (.changeStatus contestedDraft.id .cancelled none)
          contested = (.ok outcome, t) ∧
        execute {} cancellation.call (.getDocument contestedDraft.id) t
          = (.ok ⟨outcome.value, []⟩, t) := by
  obtain ⟨-, -, -, hchanged, -⟩ :=
    @answers_read_back {} cancellation.call contested firstStream.tenant
      lawful_contested rfl
  obtain ⟨outcome, t, h⟩ : ∃ outcome t,
      execute {} cancellation.call (.changeStatus contestedDraft.id .cancelled none)
          contested = (.ok outcome, t) :=
    ⟨_, _, by with_unfolding_all rfl⟩
  obtain ⟨hid, hshows, -⟩ := hchanged _ _ _ _ _ h
  exact ⟨outcome, t, h, hid ▸ hshows.answered _ ⟨rfl, rfl⟩⟩

end Service

end Docket
