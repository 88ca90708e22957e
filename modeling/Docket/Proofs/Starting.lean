import Docket.Proofs.Entries
import Docket.Proofs.Numbering

/-! # Where a new counter starts

A counter that is configured in a stream without counters serves the next number of the stream. It
goes on from the value that it was given, unless it resets and has no year: then its first number
is taken to be that of a new year, and the value that it was given is lost.
-/

namespace Docket

open Store Issuing Simulation

namespace NewCounter

def stream (new : NewCounter) (tenant : Id) : Stream :=
  ⟨tenant, new.key.documentType, new.key.series⟩

/-- The value that a new counter hands out first in its year. -/
def firstValue (new : NewCounter) : Int :=
  if new.settings.resets = true ∧ new.key.year = none then 1 else new.start + 1

/-- A new counter goes on from its start exactly if it does not reset, or has a year, or starts
at 0. -/
theorem firstValue_eq_iff {new : NewCounter} :
    new.firstValue = new.start + 1 ↔
      new.settings.resets = false ∨ new.key.year.isSome ∨ new.start = 0 := by
  unfold firstValue
  split
  · next h =>
    have hzero : 1 = new.start + 1 ↔ new.start = 0 := by omega
    rw [hzero]
    simp [h]
  · next h =>
    rw [not_and_or, Bool.not_eq_true, ← ne_eq, Option.ne_none_iff_isSome] at h
    exact iff_of_true rfl (h.imp_right Or.inl)

theorem firstValue_lt {new : NewCounter} (h : new.start + 1 < int64Bound) :
    new.firstValue < int64Bound := by
  unfold firstValue
  split
  · decide
  · exact h

end NewCounter

namespace Issuing.Allocation

variable {a : Allocation} {c : Counter}

theorem storable_next (hc : c.Storable) (hyear : -int32Bound ≤ a.year ∧ a.year < int32Bound) :
    (a.next c).Storable := by
  by_cases h : a.Rolls c
  · rw [next_of_rolls h]
    exact ⟨hc.padding, fun y hy => Option.some.inj hy ▸ hyear⟩
  · rw [next_of_not_rolls h]
    exact ⟨hc.padding, hc.year⟩

theorem rolls_iff_of_current (hyear : ∀ y ∈ c.year, y = a.year) :
    a.Rolls c ↔ c.settings.resets = true ∧ c.year = none := by
  refine and_congr_right fun _ => ⟨fun hne => ?_, fun hnone h => ?_⟩
  · rw [Option.eq_none_iff_forall_ne_some]
    rintro y hy
    exact hne (hy.trans (congrArg some (hyear y hy)))
  · cases hnone.symm.trans h

theorem value_next_newCounter {service : Service} {call : Call} {tenant : Id} {new : NewCounter}
    (hyear : ∀ y ∈ new.key.year, y = a.year) :
    (a.next (service.newCounter call tenant new)).value = new.firstValue := by
  have hrolls : a.Rolls (service.newCounter call tenant new) ↔
      new.settings.resets = true ∧ new.key.year = none := rolls_iff_of_current hyear
  by_cases h : a.Rolls (service.newCounter call tenant new)
  · rw [next_of_rolls h, NewCounter.firstValue, if_pos (hrolls.mp h)]
  · rw [next_of_not_rolls h, NewCounter.firstValue, if_neg (h ∘ hrolls.mpr)]
    rfl

end Issuing.Allocation

namespace Store

variable {s t : Store} {a : Allocation} {c : Counter} {r : CounterRow}

theorem streamRows_addCounter (h : s.addCounter r = .ok t) (hlive : r.isLive)
    (hrows : s.streamRows r.stream = []) : t.streamRows r.stream = [r] := by
  obtain ⟨-, -, rfl⟩ := addCounter_eq_ok_iff.mp h
  have hnone : s.counters.filter (fun q => decide (q.stream = r.stream ∧ q.isLive = true)) = [] :=
    (List.Perm.nil_eq (hrows ▸ streamRows_perm s r.stream)).symm
  rw [streamRows, List.filter_append, hnone, List.nil_append, List.filter_singleton]
  simp [hlive, insertByKey]

/-- In a stream with one counter, that one serves every year that is not before its own. -/
theorem Keyed.advance_of_singleton (hs : s.Keyed) (hrows : s.streamRows a.stream = [.encode c])
    (hreached : ∀ y ∈ c.year, y ≤ a.year) (hstorable : (a.next c).Storable)
    (hc : c.Storable) (hvalue : (a.next c).value < int64Bound) :
    ∃ u, s.advance a = .ok (a.next c, u) := by
  have hdecode : CounterRow.decodeAll (s.streamRows a.stream) = .ok [c] :=
    CounterRow.decodeAll_eq_ok_iff.mpr ⟨hrows, by simpa using hc⟩
  have hselect : select? [c] a.year = some c := select?_singleton (isReached_iff.mpr hreached)
  have hstream : c.stream = a.stream :=
    (mem_of_rows hdecode (List.mem_singleton_self c)).2.1
  refine ⟨_, hs.advance_eq_ok_iff.mpr (.next hdecode hselect hvalue (fun q hq hql hkey => ?_)
    hstorable)⟩
  -- A row with the new live key is in the stream, where there is no other.
  have hqs : q.stream = a.stream :=
    (liveKey_eq_iff.mp hkey).1.trans ((Allocation.next_stream a c).trans hstream)
  have hmem : q ∈ s.streamRows a.stream := mem_streamRows.mpr ⟨hq, hqs, hql⟩
  rw [hrows] at hmem
  rw [List.mem_singleton.mp hmem, encode_id]

end Store

namespace Service

open Docket.Action

variable {service : Service} {call : Call} {tenant id documentType : Id} {series : String}
  {s t : Store} {c : Counter} {d : Document}

theorem succeeds_generateNumber (hcall : call.ActsFor tenant)
    (htype : checkDocumentType documentType = .ok ())
    (hadvance : s.advance (service.allocation call ⟨tenant, documentType, series⟩) = .ok (c, t)) :
    (service.generateNumber call documentType series).Succeeds s
      ⟨c.number, [.numberAllocated (.of tenant c.number (service.stamp call))]⟩ t := by
  let step : Step := .allocate (service.allocation call ⟨tenant, documentType, series⟩)
  have hperform : s.perform step = (.ok c, t) := commit_eq_ok_iff.mpr hadvance
  have hattempt : Succeeds (service.attempt step) s c t :=
    (succeeds_attempt_iff fun f hf => by exact (commit_error hf).2).mpr hperform
  unfold generateNumber
  exact succeeds_bind_iff.mpr ⟨tenant, s, succeeds_scope_iff.mpr ⟨hcall.scope, rfl⟩,
    succeeds_bind_iff.mpr ⟨(), s, succeeds_check_iff.mpr ⟨htype, rfl⟩,
      succeeds_bind_iff.mpr ⟨(), s, succeeds_start_iff.mpr ⟨hcall.going, rfl⟩,
        succeeds_bind_iff.mpr ⟨(), s, succeeds_ask_iff.mpr rfl,
          succeeds_bind_iff.mpr ⟨c, t, hattempt, succeeds_pure_iff.mpr ⟨rfl, rfl⟩⟩⟩⟩⟩⟩

theorem exists_succeeds_assignNumber (hs : s.Keyed) (hcall : call.ActsFor tenant)
    (hfind : s.findDocument tenant id = .ok (some d)) (hunnumbered : checkUnnumbered d = .ok ())
    (htype : d.documentType = some documentType) (hversion : d.version + 1 < int64Bound)
    (hadvance : s.advance (service.allocation call ⟨tenant, documentType, series⟩) = .ok (c, t)) :
    ∃ outcome u, (service.assignNumber call id series).Succeeds s outcome u ∧
      Hands service call (.assignNumber id series) outcome ⟨tenant, documentType, series⟩
        c.number := by
  let pending := { d with version := d.version + 1, updated := service.stamp call }
  let a := service.allocation call ⟨tenant, documentType, series⟩
  let step : Step := .assignNumber pending d.version a
  obtain ⟨htenant, -, hheld⟩ := hs.findDocument_eq_some_iff.mp hfind
  obtain ⟨u, hchange⟩ : ∃ u, t.changeDocument pending d.version
      (fun r => r.numbered pending c.number.formatted) = .ok u := by
    have hdocuments : t.documents = s.documents := by
      rw [(hs.advance_eq_ok_iff.mp hadvance).tables]
    exact ⟨_, changeDocument_eq_ok_iff.mpr
      ⟨⟨.encode d, hdocuments ▸ hheld.row, rfl, rfl, rfl⟩, rfl⟩⟩
  let numbered := { pending with number := some c.number.formatted }
  have hassign : s.assignNumber pending d.version a = .ok ((numbered, c.number), u) :=
    assignNumber_eq_ok_iff.mpr ⟨c, t, hadvance, rfl, rfl, hchange⟩
  have hperform : s.perform step = (.ok (numbered, c.number), u) := commit_eq_ok_iff.mpr hassign
  have hattempt : Succeeds (service.attempt step) s (numbered, c.number) u :=
    (succeeds_attempt_iff fun f hf => by exact (commit_error hf).2).mpr hperform
  refine ⟨_, u, ?_, .assigned hcall.scope (d := numbered) htype rfl⟩
  have hnumbering : numberingType d = .ok documentType := by rw [numberingType, htype]
  unfold assignNumber
  refine succeeds_bind_iff.mpr ⟨tenant, s, succeeds_scope_iff.mpr ⟨hcall.scope, rfl⟩,
    succeeds_bind_iff.mpr ⟨(), s, succeeds_start_iff.mpr ⟨hcall.going, rfl⟩,
      succeeds_bind_iff.mpr ⟨d, s, succeeds_load_iff.mpr ⟨hfind, rfl⟩, ?_⟩⟩⟩
  simp only [hunnumbered, hnumbering]
  exact succeeds_bind_iff.mpr ⟨d.version + 1, s, succeeds_compute_iff.mpr ⟨if_pos hversion, rfl⟩,
    succeeds_bind_iff.mpr ⟨(), s, succeeds_ask_iff.mpr rfl,
      succeeds_bind_iff.mpr ⟨(numbered, c.number), u, hattempt,
        succeeds_pure_iff.mpr ⟨rfl, rfl⟩⟩⟩⟩

end Service

section Start

variable {service : Service} {call next : Call} {new : NewCounter} {created : Outcome Counter}
  {tenant : Id} {s t u : Store}

theorem streamRows_of_createCounter
    (hcreate : service.execute call (.createCounter new) s = (.ok created, t))
    (htenant : call.caller.tenant = some tenant)
    (halone : s.streamRows (new.stream tenant) = []) :
    created.value = service.newCounter call tenant new ∧ created.value.Storable ∧
      t.streamRows (new.stream tenant) = [.encode created.value] := by
  obtain ⟨owner, c, howner, -, -, hinsert, rfl⟩ := Service.createCounter_succeeds hcreate
  obtain rfl := Option.some.inj (htenant.symm.trans howner)
  obtain ⟨rfl, hstorable, hadd⟩ := insertCounter_eq_ok_iff.mp hinsert
  exact ⟨rfl, hstorable, streamRows_addCounter hadd rfl halone⟩

/-- The first number of a new counter is taken where the counter is the only one of its stream. -/
theorem exists_advance_of_newCounter (hu : u.Keyed)
    (hrows : u.streamRows (new.stream tenant) = [.encode (service.newCounter call tenant new)])
    (hstorable : (service.newCounter call tenant new).Storable)
    (hyear : ∀ y ∈ new.key.year, y = call.now.year) (hnext : next.now.year = call.now.year)
    (hclock : -int32Bound ≤ call.now.year ∧ call.now.year < int32Bound)
    (hstart : new.start + 1 < int64Bound) :
    ∃ c v, u.advance (service.allocation next (new.stream tenant)) = .ok (c, v) ∧
      c.value = new.firstValue ∧ c.id = call.fresh := by
  let a := service.allocation next (new.stream tenant)
  let b := service.newCounter call tenant new
  have hcurrent : ∀ y ∈ b.year, y = a.year := fun y hy => (hyear y hy).trans hnext.symm
  have hvalue : (a.next b).value = new.firstValue := Allocation.value_next_newCounter hcurrent
  have hclock : -int32Bound ≤ a.year ∧ a.year < int32Bound := by
    change -int32Bound ≤ next.now.year ∧ next.now.year < int32Bound
    rwa [hnext]
  have hnextStorable : (a.next b).Storable := Allocation.storable_next hstorable hclock
  obtain ⟨v, hadvance⟩ := hu.advance_of_singleton hrows (fun y hy => Int.le_of_eq (hcurrent y hy))
    hnextStorable hstorable (hvalue ▸ NewCounter.firstValue_lt hstart)
  exact ⟨a.next b, v, hadvance, hvalue, Allocation.next_id a b⟩

/-- A counter that is created alone in its stream, for no year or the current one, hands out the
next number of the stream in that year, be it asked for or assigned to a document. The number
follows the value that the counter was given exactly if the counter does not reset, or has a year,
or was given the value 0; any other one begins with 1. -/
theorem start_followed_iff
    (hcreate : service.execute call (.createCounter new) s = (.ok created, t))
    (htenant : call.caller.tenant = some tenant)
    (halone : s.streamRows (new.stream tenant) = [])
    (hyear : ∀ y ∈ new.key.year, y = call.now.year) (hnext : next.now.year = call.now.year)
    (hclock : -int32Bound ≤ call.now.year ∧ call.now.year < int32Bound)
    (hstart : new.start + 1 < int64Bound)
    (hu : u.Keyed) (hkept : u.streamRows (new.stream tenant) = t.streamRows (new.stream tenant))
    (hcall : next.ActsFor tenant) :
    (∃ number events v,
      service.execute next (.generateNumber new.key.documentType new.key.series) u
        = (.ok ⟨number, events⟩, v) ∧
      number.value = new.firstValue ∧ number.counter = created.value.id) ∧
    (∀ id d, u.findDocument tenant id = .ok (some d) → Service.checkUnnumbered d = .ok () →
      d.documentType = some new.key.documentType → d.version + 1 < int64Bound →
      ∃ outcome number v,
        service.execute next (.assignNumber id new.key.series) u = (.ok outcome, v) ∧
        Service.Hands service next (.assignNumber id new.key.series) outcome (new.stream tenant)
          number ∧
        number.value = new.firstValue ∧ number.counter = created.value.id) ∧
    (new.firstValue = new.start + 1 ↔
      new.settings.resets = false ∨ new.key.year.isSome ∨ new.start = 0) ∧
    (new.settings.resets = true → new.key.year = none → new.firstValue = 1) := by
  obtain ⟨hcounter, hstorable, hrows⟩ := streamRows_of_createCounter hcreate htenant halone
  rw [hcounter] at hrows hstorable ⊢
  obtain ⟨c, v, hadvance, hvalue, hid⟩ := exists_advance_of_newCounter hu (hkept.trans hrows)
    hstorable hyear hnext hclock hstart
  refine ⟨?generated, ?assigned, NewCounter.firstValue_eq_iff, fun hresets hnone =>
    if_pos ⟨hresets, hnone⟩⟩
  case generated =>
    obtain ⟨-, -, -, hcheck, -⟩ := Service.createCounter_succeeds hcreate
    have htype := checkDocumentType_eq_ok_iff.mpr (isNil_of_checkNewCounter hcheck)
    exact ⟨_, _, v, Service.succeeds_generateNumber hcall htype hadvance, hvalue, hid⟩
  case assigned =>
    intro id d hfind hunnumbered htype hversion
    obtain ⟨outcome, w, hassign, hhands⟩ := Service.exists_succeeds_assignNumber hu hcall hfind
      hunnumbered htype hversion hadvance
    exact ⟨outcome, _, w, hassign, hhands, hvalue, hid⟩

end Start

def forgetful : NewCounter :=
  { key := ⟨.ofNat 3, "", none⟩
    start := 100
    settings := {} }

theorem start_followed_forgetful :
    ∃ created t number events v,
      Service.execute {} firstCall.call (.createCounter forgetful) {} = (.ok created, t) ∧
        Service.execute {} firstCall.call (.generateNumber (.ofNat 3) "") t
          = (.ok ⟨number, events⟩, v) ∧
        number.value = 1 ∧ number.counter = created.value.id := by
  obtain ⟨created, t, hcreate⟩ : ∃ created t,
      Service.execute {} firstCall.call (.createCounter forgetful) {} = (.ok created, t) :=
    ⟨_, _, rfl⟩
  have ht : t.Keyed := by
    obtain rfl := congrArg Prod.snd hcreate
    exact ⟨List.nodup_singleton _, List.nodup_nil⟩
  have hcall : firstCall.call.ActsFor (.ofNat 1) := ⟨rfl, rfl⟩
  obtain ⟨⟨number, events, v, hnumber, hvalue, hid⟩, -⟩ :=
    start_followed_iff hcreate rfl rfl nofun rfl (by decide) (by decide) ht rfl
      hcall
  exact ⟨created, t, number, events, v, hcreate, hnumber, hvalue, hid⟩

/-- The value that a counter was given may be forgotten: its first number is 1. -/
theorem start_forgotten :
    ∃ created t,
      Service.execute {} firstCall.call (.createCounter forgetful) {} = (.ok created, t) ∧
        ((Service.execute {} firstCall.call (.generateNumber (.ofNat 3) "") t).1.toOption.map
          fun outcome => (outcome.value.counter, outcome.value.value))
            = some (created.value.id, 1) ∧
        (1 : Int) ≠ forgetful.start + 1 :=
  ⟨_, _, rfl, by decide +kernel, by decide⟩

end Docket
