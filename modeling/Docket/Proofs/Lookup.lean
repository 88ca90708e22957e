import Docket.Proofs.Keys
import Docket.Proofs.Rows

/-! # Looking up counters

A query for a counter answers with the one live counter of the tenant that has the identifier or the
key, since no two have, or with none.
-/

namespace Docket

open Store

namespace Store

variable {s : Store} {tenant id : Id} {key : CounterKey} {c : Counter} {r q : CounterRow}

theorem mem_liveCounters :
    r ∈ s.liveCounters tenant ↔ r ∈ s.counters ∧ r.tenant = tenant ∧ r.isLive := by
  simp only [liveCounters, List.mem_filter, decide_eq_true_eq]

theorem lift_eq_ok_iff {α : Type} {x : Except DecodeFailure α} {a : α} :
    lift x = .ok a ↔ x = .ok a := by
  cases x <;> simp [lift]

theorem answer_eq_some_iff {row : Option CounterRow} :
    (match row with
      | none => Except.ok none
      | some r => lift (r.decode.map some)) = .ok (some c) ↔
        row = some (.encode c) ∧ c.Storable := by
  cases row with
  | none => simp
  | some r =>
    rw [lift_eq_ok_iff, Option.some.injEq]
    constructor
    · intro h
      cases hd : r.decode with
      | error f => simp [hd, Except.map] at h
      | ok d =>
        simp only [hd, Except.map, Except.ok.injEq, Option.some.injEq] at h
        exact h ▸ CounterRow.decode_eq_ok_iff.mp hd
    · rintro ⟨rfl, hc⟩
      rw [CounterRow.decode_encode hc]
      rfl

theorem answer_eq_none_iff {row : Option CounterRow} :
    (match row with
      | none => Except.ok none
      | some r => lift (r.decode.map some)) = .ok none ↔ row = none := by
  cases row with
  | none => simp
  | some r => cases hd : r.decode <;> simp [hd, lift, Except.map]

theorem find?_eq_some_iff_of_unique {rows : List CounterRow} {p : CounterRow → Bool}
    (hunique : ∀ q ∈ rows, ∀ r ∈ rows, p q → p r → q = r) :
    rows.find? p = some r ↔ r ∈ rows ∧ p r := by
  constructor
  · intro h
    exact ⟨List.mem_of_find?_eq_some h, List.find?_some h⟩
  · rintro ⟨hr, hp⟩
    cases h : rows.find? p with
    | none => exact absurd hp (List.find?_eq_none.mp h r hr)
    | some q => rw [hunique q (List.mem_of_find?_eq_some h) r hr (List.find?_some h) hp]

theorem mem_of_findCounter (h : s.findCounter tenant id = .ok (some c)) :
    .encode c ∈ s.liveCounters tenant ∧ c.id = id ∧ c.Storable := by
  obtain ⟨hfind, hc⟩ := answer_eq_some_iff.mp h
  have hid := List.find?_some hfind
  exact ⟨List.mem_of_find?_eq_some hfind, of_decide_eq_true hid, hc⟩

theorem Keyed.findCounter_eq_some_iff (hs : s.Keyed) :
    s.findCounter tenant id = .ok (some c) ↔
      .encode c ∈ s.liveCounters tenant ∧ c.id = id ∧ c.Storable := by
  refine answer_eq_some_iff.trans ?_
  rw [find?_eq_some_iff_of_unique, decide_eq_true_eq, and_assoc]
  · rfl
  · intro q hq r hr hqid hrid
    rw [decide_eq_true_eq] at hqid hrid
    exact hs.counter_eq (mem_liveCounters.mp hq).1 (mem_liveCounters.mp hr).1 (hqid.trans hrid.symm)

theorem findCounter_eq_none_iff :
    s.findCounter tenant id = .ok none ↔ ∀ r ∈ s.liveCounters tenant, r.id ≠ id := by
  refine answer_eq_none_iff.trans ?_
  simp only [List.find?_eq_none, decide_eq_true_eq, ne_eq]

theorem liveKey_eq_of_key (htenant : q.tenant = r.tenant) (hkey : q.key = r.key) :
    q.liveKey = r.liveKey := by
  obtain ⟨htype, hseries, hyear⟩ := CounterKey.mk.inj hkey
  refine liveKey_eq_iff.mpr ⟨?_, ?_⟩
  · rw [CounterRow.stream, CounterRow.stream, htenant, htype, hseries]
  · rw [hyear]

/-- No two live counters of a tenant have one key. -/
theorem Lawful.eq_of_key (hs : s.Lawful) (hq : q ∈ s.liveCounters tenant)
    (hr : r ∈ s.liveCounters tenant) (h : q.key = r.key) : q = r := by
  obtain ⟨hq, hqt, hql⟩ := mem_liveCounters.mp hq
  obtain ⟨hr, hrt, hrl⟩ := mem_liveCounters.mp hr
  have hlive := liveKey_eq_of_key (hqt.trans hrt.symm) h
  exact hs.counter_eq hq hr (hs.liveKeys q hq r hr hql hrl hlive)

theorem Lawful.findCounterByKey_eq_some_iff (hs : s.Lawful) :
    s.findCounterByKey tenant key = .ok (some c) ↔
      .encode c ∈ s.liveCounters tenant ∧ c.key = key ∧ c.Storable := by
  refine answer_eq_some_iff.trans ?_
  rw [find?_eq_some_iff_of_unique, decide_eq_true_eq, and_assoc]
  · rfl
  · intro q hq r hr hqkey hrkey
    rw [decide_eq_true_eq] at hqkey hrkey
    exact hs.eq_of_key hq hr (hqkey.trans hrkey.symm)

theorem findCounterByKey_eq_none_iff :
    s.findCounterByKey tenant key = .ok none ↔ ∀ r ∈ s.liveCounters tenant, r.key ≠ key := by
  refine answer_eq_none_iff.trans ?_
  simp only [List.find?_eq_none, decide_eq_true_eq, ne_eq]

end Store

end Docket
