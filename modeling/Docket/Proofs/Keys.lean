import Mathlib.Data.List.Nodup
import Mathlib.Data.List.Sort
import Docket.Store.Step

/-! # Keys of stored rows

Counters and documents have identifiers of their own, and no two live counters share a live key.
Writes that keep identifiers and live keys, and writes that check them, keep a store lawful.
-/

namespace Docket

open Store

namespace Store

/-- No two rows of a table share their identifier. -/
structure Keyed (s : Store) : Prop where
  counterIds : (s.counters.map CounterRow.id).Nodup
  documentIds : (s.documents.map DocumentRow.id).Nodup

/-- Identifiers are unique, and so are the live keys of live counters. -/
structure Lawful (s : Store) : Prop extends Keyed s where
  liveKeys : ∀ q ∈ s.counters, ∀ r ∈ s.counters, q.isLive → r.isLive → q.liveKey = r.liveKey →
    q.id = r.id

variable {s : Store} {q r : CounterRow} {stream : Stream}

theorem lawful_empty : Lawful {} := by
  constructor
  · constructor <;> exact List.nodup_nil
  · simp

theorem Keyed.counter_eq (hs : s.Keyed) (hq : q ∈ s.counters) (hr : r ∈ s.counters)
    (h : q.id = r.id) : q = r :=
  List.inj_on_of_nodup_map hs.counterIds hq hr h

theorem Keyed.nodup_counters (hs : s.Keyed) : s.counters.Nodup :=
  List.Nodup.of_map _ hs.counterIds

theorem Keyed.document_eq (hs : s.Keyed) {q r : DocumentRow} (hq : q ∈ s.documents)
    (hr : r ∈ s.documents) (h : q.id = r.id) : q = r :=
  List.inj_on_of_nodup_map hs.documentIds hq hr h

theorem Keyed.find?_counter (hs : s.Keyed) (hr : r ∈ s.counters) :
    (s.counters.find? fun q => q.id = r.id) = some r := by
  cases h : s.counters.find? fun q => q.id = r.id with
  | none => simpa using List.find?_eq_none.mp h r hr
  | some q =>
    have hq : q.id = r.id := by simpa using List.find?_some h
    rw [hs.counter_eq (List.mem_of_find?_eq_some h) hr hq]

theorem insertByKey_eq (r : CounterRow) (rows : List CounterRow) :
    insertByKey r rows = rows.orderedInsert (fun a b => a.liveKey.2 ≤ b.liveKey.2) r := by
  induction rows with
  | nil => rfl
  | cons q rows ih => simp only [insertByKey, List.orderedInsert_cons, ih]

theorem streamRows_eq (s : Store) (stream : Stream) :
    s.streamRows stream
      = (s.counters.filter fun r => r.stream = stream ∧ r.isLive).insertionSort
        fun a b => a.liveKey.2 ≤ b.liveKey.2 := by
  have hinsert : insertByKey = List.orderedInsert fun a b => a.liveKey.2 ≤ b.liveKey.2 := by
    funext r rows
    exact insertByKey_eq r rows
  rw [streamRows, hinsert, List.insertionSort]

theorem streamRows_perm (s : Store) (stream : Stream) :
    (s.streamRows stream).Perm (s.counters.filter fun r => r.stream = stream ∧ r.isLive) := by
  rw [streamRows_eq]
  exact List.perm_insertionSort _ _

theorem mem_streamRows :
    r ∈ s.streamRows stream ↔ r ∈ s.counters ∧ r.stream = stream ∧ r.isLive := by
  simp only [(streamRows_perm s stream).mem_iff, List.mem_filter, decide_eq_true_eq]

theorem Keyed.nodup_streamRows (hs : s.Keyed) (stream : Stream) : (s.streamRows stream).Nodup :=
  (streamRows_perm s stream).nodup_iff.mpr (hs.nodup_counters.filter _)

theorem streamRows_congr {t : Store} (h : s.counters = t.counters) :
    s.streamRows stream = t.streamRows stream := by
  simp only [streamRows, h]

theorem liveKey_eq_iff :
    q.liveKey = r.liveKey ↔ q.stream = r.stream ∧ q.year.getD 0 = r.year.getD 0 :=
  Prod.ext_iff

/-- Rows of one stream differ in their years, even if no year is taken for the year 0. -/
theorem Lawful.eq_of_getD_year (hs : s.Lawful) (hq : q ∈ s.streamRows stream)
    (hr : r ∈ s.streamRows stream) (h : q.year.getD 0 = r.year.getD 0) : q = r := by
  obtain ⟨hq, hqs, hql⟩ := mem_streamRows.mp hq
  obtain ⟨hr, hrs, hrl⟩ := mem_streamRows.mp hr
  exact hs.counter_eq hq hr
    (hs.liveKeys q hq r hr hql hrl (liveKey_eq_iff.mpr ⟨hqs.trans hrs.symm, h⟩))

theorem Lawful.eq_of_year (hs : s.Lawful) (hq : q ∈ s.streamRows stream)
    (hr : r ∈ s.streamRows stream) (h : q.year = r.year) : q = r :=
  hs.eq_of_getD_year hq hr (by rw [h])

theorem mem_changeCounter {id : Id} {f : CounterRow → CounterRow} :
    q ∈ (s.changeCounter id f).counters ↔
      (∃ r ∈ s.counters, r.id = id ∧ f r = q) ∨ q ∈ s.counters ∧ q.id ≠ id := by
  simp only [changeCounter, List.mem_map]
  constructor
  · rintro ⟨r, hr, rfl⟩
    by_cases h : r.id = id
    · exact Or.inl ⟨r, hr, h, (if_pos h).symm⟩
    · rw [if_neg h]; exact Or.inr ⟨hr, h⟩
  · rintro (⟨r, hr, h, rfl⟩ | ⟨hq, h⟩)
    · exact ⟨r, hr, if_pos h⟩
    · exact ⟨q, hq, if_neg h⟩

theorem Keyed.replace (hs : s.Keyed) {id : Id} {f : CounterRow → CounterRow}
    (hf : ∀ r ∈ s.counters, r.id = id → (f r).id = id) : (s.changeCounter id f).Keyed := by
  refine ⟨?_, hs.documentIds⟩
  have : (s.changeCounter id f).counters.map CounterRow.id = s.counters.map CounterRow.id := by
    simp only [changeCounter, List.map_map]
    refine List.map_congr_left fun r hr => ?_
    by_cases h : r.id = id
    · rw [Function.comp_apply, if_pos h, hf r hr h, h]
    · rw [Function.comp_apply, if_neg h]
  rw [this]
  exact hs.counterIds

theorem Lawful.replace (hs : s.Lawful) {id : Id} {f : CounterRow → CounterRow}
    (hf : ∀ r ∈ s.counters, r.id = id → (f r).id = id)
    (hkey : ∀ r ∈ s.counters, r.id = id → (f r).isLive → ∀ q ∈ s.counters, q.isLive →
      q.liveKey = (f r).liveKey → q.id = id) : (s.changeCounter id f).Lawful := by
  refine ⟨hs.toKeyed.replace hf, fun q hq r hr hql hrl h => ?_⟩
  replace hq := mem_changeCounter.mp hq
  replace hr := mem_changeCounter.mp hr
  rcases hq with ⟨q, hq, hqi, rfl⟩ | ⟨hq, hqi⟩ <;> rcases hr with ⟨r, hr, hri, rfl⟩ | ⟨hr, hri⟩
  · rw [hf q hq hqi, hf r hr hri]
  · exact absurd (hkey q hq hqi hql r hr hrl h.symm) hri
  · exact absurd (hkey r hr hri hrl q hq hql h) hqi
  · exact hs.liveKeys q hq r hr hql hrl h

theorem Lawful.map (hs : s.Lawful) {f : CounterRow → CounterRow}
    (hf : ∀ r, (f r).id = r.id ∧ (f r).liveKey = r.liveKey ∧ ((f r).isLive → r.isLive)) :
    Lawful { s with counters := s.counters.map f } := by
  refine ⟨⟨?_, hs.documentIds⟩, fun q hq r hr hql hrl he => ?_⟩
  · have hid : ∀ r ∈ s.counters, (CounterRow.id ∘ f) r = r.id := fun r _ => (hf r).1
    rw [List.map_map, List.map_congr_left hid]
    exact hs.counterIds
  · obtain ⟨x, hx, rfl⟩ := List.mem_map.mp hq
    obtain ⟨y, hy, rfl⟩ := List.mem_map.mp hr
    obtain ⟨hxi, hxk, hxl⟩ := hf x
    obtain ⟨hyi, hyk, hyl⟩ := hf y
    have hk : x.liveKey = y.liveKey := hxk.symm.trans (he.trans hyk)
    exact hxi.trans ((hs.liveKeys x hx y hy (hxl hql) (hyl hrl) hk).trans hyi.symm)

theorem addCounter_eq_ok_iff {t : Store} :
    s.addCounter r = .ok t ↔
      (r.isLive → ∀ q ∈ s.counters, q.isLive → q.liveKey ≠ r.liveKey) ∧
        (∀ q ∈ s.counters, q.id ≠ r.id) ∧ t = { s with counters := s.counters ++ [r] } := by
  unfold addCounter
  split
  · next h =>
    simp only [List.any_eq_true, decide_eq_true_eq] at h
    obtain ⟨hl, q, hq, hql, hk⟩ := h
    simp only [reduceCtorEq, false_iff, not_and]
    exact fun hn => absurd hk (hn hl q hq hql)
  · next h =>
    simp only [List.any_eq_true, decide_eq_true_eq, not_and, not_exists] at h
    split
    · next hi =>
      simp only [List.any_eq_true, decide_eq_true_eq] at hi
      obtain ⟨q, hq, hi⟩ := hi
      simp only [reduceCtorEq, false_iff, not_and]
      exact fun _ hn => absurd hi (hn q hq)
    · next hi =>
      simp only [List.any_eq_true, decide_eq_true_eq, not_and, not_exists] at hi
      rw [Except.ok.injEq]
      exact ⟨fun ht => ⟨h, hi, ht.symm⟩, fun ht => ht.2.2.symm⟩

theorem Keyed.add (hs : s.Keyed) (hid : ∀ q ∈ s.counters, q.id ≠ r.id) :
    Keyed { s with counters := s.counters ++ [r] } := by
  refine ⟨?_, hs.documentIds⟩
  rw [List.map_append, List.map_singleton, ← List.concat_eq_append]
  refine List.Nodup.concat (fun hm => ?_) hs.counterIds
  obtain ⟨q, hq, h⟩ := List.mem_map.mp hm
  exact hid q hq h

theorem Lawful.add (hs : s.Lawful) {t : Store} (h : s.addCounter r = .ok t) : t.Lawful := by
  obtain ⟨hkey, hid, rfl⟩ := addCounter_eq_ok_iff.mp h
  refine ⟨hs.toKeyed.add hid, fun p hp q hq hpl hql he => ?_⟩
  simp only [List.mem_append, List.mem_singleton] at hp hq
  rcases hp with hp | rfl <;> rcases hq with hq | rfl
  · exact hs.liveKeys p hp q hq hpl hql he
  · exact absurd he (hkey hql p hp hpl)
  · exact absurd he.symm (hkey hpl q hq hql)
  · rfl

end Store

end Docket
