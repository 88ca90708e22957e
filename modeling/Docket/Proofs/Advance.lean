import Docket.Proofs.Keys
import Docket.Proofs.Rows
import Docket.Proofs.Selection

/-! # What an allocation does to the store

An allocation that goes through adds the first counter of its stream for a year, or moves the
selected counter on by one. Both are one relation, which says all that changes and under which
conditions; the store's function decides it.
-/

namespace Docket

open Store Issuing

namespace Issuing.Allocation

variable {a : Allocation} {c : Counter} {counters : List Counter}

/-- Whether a counter starts again in the year of an allocation. -/
def Rolls (a : Allocation) (c : Counter) : Prop := c.settings.resets = true ∧ c.year ≠ some a.year

instance (a : Allocation) (c : Counter) : Decidable (a.Rolls c) :=
  inferInstanceAs (Decidable (_ ∧ _))

/-- A counter after an allocation from it. -/
def next (a : Allocation) (c : Counter) : Counter :=
  { a.rolledOver c with value := (a.rolledOver c).value + 1, updated := a.stamp }

theorem next_of_rolls (h : a.Rolls c) :
    a.next c = { c with year := some a.year, value := 1, updated := a.stamp } := by
  have : a.rolledOver c = { c with value := 0, year := some a.year } := if_pos h
  simp only [next, this, Int.zero_add]

theorem rolledOver_of_not_rolls (h : ¬ a.Rolls c) : a.rolledOver c = c := if_neg h

theorem next_of_not_rolls (h : ¬ a.Rolls c) :
    a.next c = { c with value := c.value + 1, updated := a.stamp } := by
  simp only [next, rolledOver_of_not_rolls h]

@[simp] theorem next_id (a : Allocation) (c : Counter) : (a.next c).id = c.id := by
  by_cases h : a.Rolls c
  · rw [next_of_rolls h]
  · rw [next_of_not_rolls h]

@[simp] theorem next_stream (a : Allocation) (c : Counter) : (a.next c).stream = c.stream := by
  by_cases h : a.Rolls c
  · rw [next_of_rolls h]; rfl
  · rw [next_of_not_rolls h]; rfl

@[simp] theorem next_retired (a : Allocation) (c : Counter) : (a.next c).retired = c.retired := by
  by_cases h : a.Rolls c
  · rw [next_of_rolls h]
  · rw [next_of_not_rolls h]

theorem advanced_encode (a : Allocation) (c : Counter) :
    (CounterRow.encode c).advanced (a.next c) = .encode (a.next c) := by
  by_cases h : a.Rolls c
  · rw [next_of_rolls h]; rfl
  · rw [next_of_not_rolls h]; rfl

/-- A counter after an allocation that keeps the year of the counter of an identifier. -/
def tick (a : Allocation) (id : Id) (c : Counter) : Counter :=
  if c.id = id then { c with value := c.value + 1, updated := a.stamp } else c

theorem tick_year (a : Allocation) (id : Id) (c : Counter) : (a.tick id c).year = c.year := by
  unfold tick; split <;> rfl

theorem tick_settings (a : Allocation) (id : Id) (c : Counter) :
    (a.tick id c).settings = c.settings := by
  unfold tick; split <;> rfl

theorem tick_self (h : ¬ a.Rolls c) : a.tick c.id c = a.next c := by
  rw [tick, if_pos rfl, next_of_not_rolls h]

theorem plan_of_none (h : select? counters a.year = none) :
    a.plan counters = .ok (.insert a.firstCounter) := by
  simp only [plan, h]

theorem plan_of_some (h : select? counters a.year = some c) :
    a.plan counters = if (a.next c).value < int64Bound then .ok (.update (a.next c))
      else .error .integerSum := by
  have hn : (a.next c).value = (a.rolledOver c).value + 1 := rfl
  simp only [plan, h]
  by_cases hv : (a.next c).value < int64Bound
  · rw [if_pos hv, succ?, if_pos (hn ▸ hv)]; rfl
  · rw [if_neg hv, succ?, if_neg (hn ▸ hv)]

end Issuing.Allocation

namespace Store

open Allocation

@[simp] theorem encode_id (c : Counter) : (CounterRow.encode c).id = c.id := rfl

@[simp] theorem encode_year (c : Counter) : (CounterRow.encode c).year = c.year := rfl

theorem encode_injective {c d : Counter} (h : CounterRow.encode c = .encode d) : c = d := by
  obtain ⟨_, _, _, _, _, _, ⟨_, _, _, _, _⟩, _, _, _⟩ := c
  obtain ⟨_, _, _, _, _, _, ⟨_, _, _, _, _⟩, _, _, _⟩ := d
  simp only [CounterRow.encode, CounterRow.mk.injEq, Int.natCast_inj] at h
  simp only [h]

theorem mem_of_encode {c : Counter} {counters : List Counter}
    (h : CounterRow.encode c ∈ counters.map .encode) : c ∈ counters := by
  obtain ⟨d, hd, he⟩ := List.mem_map.mp h
  exact encode_injective he ▸ hd

/-- What an allocation that goes through answers and leaves. -/
inductive Advances (s : Store) (a : Allocation) : Counter → Store → Prop
  | first {counters : List Counter}
      (rows : CounterRow.decodeAll (s.streamRows a.stream) = .ok counters)
      (selected : select? counters a.year = none)
      (keyFree : ∀ q ∈ s.counters, q.isLive → q.liveKey ≠ (a.stream, a.year))
      (idFree : ∀ q ∈ s.counters, q.id ≠ a.fresh)
      (storable : a.firstCounter.Storable) :
      Advances s a a.firstCounter { s with counters := s.counters ++ [.encode a.firstCounter] }
  | next {counters : List Counter} {c : Counter}
      (rows : CounterRow.decodeAll (s.streamRows a.stream) = .ok counters)
      (selected : select? counters a.year = some c)
      (fits : (a.next c).value < int64Bound)
      (keyFree : ∀ q ∈ s.counters, q.isLive →
        q.liveKey = (CounterRow.encode (a.next c)).liveKey → q.id = c.id)
      (storable : (a.next c).Storable) :
      Advances s a (a.next c) (s.changeCounter c.id fun _ => .encode (a.next c))

variable {s t : Store} {a : Allocation} {c : Counter} {counters : List Counter}

theorem mem_of_rows {stream : Stream}
    (hrows : CounterRow.decodeAll (s.streamRows stream) = .ok counters) (hc : c ∈ counters) :
    CounterRow.encode c ∈ s.counters ∧ c.stream = stream ∧ c.isLive ∧ c.Storable := by
  obtain ⟨hr, hst⟩ := CounterRow.decodeAll_eq_ok_iff.mp hrows
  have hm : CounterRow.encode c ∈ s.streamRows stream := hr ▸ List.mem_map_of_mem hc
  obtain ⟨hm, hs, hl⟩ := mem_streamRows.mp hm
  exact ⟨hm, hs, hl, hst c hc⟩

theorem isTaken_eq_false_iff {key : Stream × Int} {id : Id} :
    s.isTaken key id = false ↔ ∀ q ∈ s.counters, q.isLive → q.liveKey = key → q.id = id := by
  simp only [isTaken, List.any_eq_false, decide_eq_true_eq, not_and, ne_eq, Decidable.not_not]

theorem Keyed.advanced_eq (hs : s.Keyed) (hc : CounterRow.encode c ∈ s.counters) :
    (s.changeCounter c.id fun r => r.advanced (a.next c))
      = s.changeCounter c.id fun _ => .encode (a.next c) := by
  simp only [changeCounter, Store.mk.injEq, and_true]
  refine List.map_congr_left fun r hr => ?_
  by_cases h : r.id = c.id
  · rw [if_pos h, if_pos h, hs.counter_eq hr hc h, advanced_encode]
  · rw [if_neg h, if_neg h]

theorem advance_of_none (hrows : CounterRow.decodeAll (s.streamRows a.stream) = .ok counters)
    (hselect : select? counters a.year = none) :
    s.advance a = (do
      let t ← s.addCounter (.encode a.firstCounter)
      let c ← lift (CounterRow.encode a.firstCounter).decode
      return (c, t)) := by
  simp only [advance, hrows, lift, plan_of_none hselect, bind, Except.bind]

theorem Keyed.advance_of_some (hs : s.Keyed)
    (hrows : CounterRow.decodeAll (s.streamRows a.stream) = .ok counters)
    (hselect : select? counters a.year = some c) :
    s.advance a =
      if ¬ (a.next c).value < int64Bound then .error (.overflow .integerSum)
      else if s.isTaken (CounterRow.encode (a.next c)).liveKey c.id then
        .error (.duplicate liveKeyTaken)
      else (lift (CounterRow.encode (a.next c)).decode).map fun d =>
        (d, s.changeCounter c.id fun _ => .encode (a.next c)) := by
  have hc := (mem_of_rows hrows (mem_of_select? hselect)).1
  have hf : (s.counters.find? fun r => r.id = (a.next c).id) = some (.encode c) := by
    rw [next_id]; exact hs.find?_counter hc
  by_cases hv : (a.next c).value < int64Bound
  · rw [if_neg (not_not.mpr hv)]
    simp only [advance, hrows, lift, plan_of_some hselect, if_pos hv, hf, bind, Except.bind,
      advanced_encode]
    simp only [encode_id, next_id, hs.advanced_eq hc]
    cases s.isTaken (CounterRow.encode (a.next c)).liveKey c.id with
    | true => rfl
    | false => cases (CounterRow.encode (a.next c)).decode <;> rfl
  · rw [if_pos hv]
    simp only [advance, hrows, lift, plan_of_some hselect, if_neg hv, bind, Except.bind]

/-- The store's function makes an allocation exactly where it goes through. -/
theorem Keyed.advance_eq_ok_iff (hs : s.Keyed) : s.advance a = .ok (c, t) ↔ s.Advances a c t := by
  constructor
  · intro h
    cases hrows : CounterRow.decodeAll (s.streamRows a.stream) with
    | error f => simp [advance, hrows, lift, bind, Except.bind] at h
    | ok counters =>
      cases hselect : select? counters a.year with
      | none =>
        rw [advance_of_none hrows hselect] at h
        cases ht : s.addCounter (.encode a.firstCounter) with
        | error f => simp [ht, bind, Except.bind] at h
        | ok u =>
          cases hd : (CounterRow.encode a.firstCounter).decode with
          | error f => simp [ht, hd, lift, bind, Except.bind] at h
          | ok d =>
            simp only [ht, hd, lift, bind, Except.bind, pure, Except.pure, Except.ok.injEq,
              Prod.mk.injEq] at h
            obtain ⟨rfl, rfl⟩ := h
            obtain ⟨he, hst⟩ := CounterRow.decode_eq_ok_iff.mp hd
            obtain ⟨hkey, hid, rfl⟩ := addCounter_eq_ok_iff.mp ht
            obtain rfl : a.firstCounter = d := encode_injective he
            exact .first hrows hselect (hkey rfl) hid hst
      | some d =>
        rw [hs.advance_of_some hrows hselect] at h
        split_ifs at h with hv hk
        cases hd : (CounterRow.encode (a.next d)).decode with
        | error f => simp [hd, lift, Except.map] at h
        | ok e =>
          simp only [hd, lift, Except.map, Except.ok.injEq, Prod.mk.injEq] at h
          obtain ⟨rfl, rfl⟩ := h
          obtain ⟨he, hst⟩ := CounterRow.decode_eq_ok_iff.mp hd
          obtain rfl : a.next d = e := encode_injective he
          exact .next hrows hselect hv (isTaken_eq_false_iff.mp (by simpa using hk)) hst
  · rintro (⟨hrows, hselect, hkey, hid, hst⟩ | ⟨hrows, hselect, hv, hkey, hst⟩)
    · rw [advance_of_none hrows hselect, addCounter_eq_ok_iff.mpr ⟨fun _ => hkey, hid, rfl⟩,
        CounterRow.decode_encode hst]
      rfl
    · rw [hs.advance_of_some hrows hselect, if_neg (not_not.mpr hv),
        isTaken_eq_false_iff.mpr hkey, CounterRow.decode_encode hst]
      rfl

/-- What a stream's counters say before an allocation: the value that was handed out last in the
year, none if the counter starts again or is yet to be added. -/
def lastValue (counters : List Counter) (year : Int) : Int :=
  match select? counters year with
  | none => 0
  | some c => if c.settings.resets = true ∧ c.year ≠ some year then 0 else c.value

theorem lastValue_of_none (h : select? counters a.year = none) :
    lastValue counters a.year = 0 := by
  simp only [lastValue, h]

theorem lastValue_of_some (h : select? counters a.year = some c) :
    lastValue counters a.year = (a.rolledOver c).value := by
  simp only [lastValue, h, Allocation.rolledOver]
  split <;> rfl

theorem streamRows_changeCounter {id : Id} {f : CounterRow → CounterRow} {stream : Stream}
    (hkey : ∀ r ∈ s.counters, r.id = id → (f r).liveKey = r.liveKey)
    (hlive : ∀ r ∈ s.counters, r.id = id → (f r).isLive = r.isLive) :
    (s.changeCounter id f).streamRows stream
      = (s.streamRows stream).map fun r => if r.id = id then f r else r := by
  have hk : ∀ r ∈ s.counters, (if r.id = id then f r else r).liveKey = r.liveKey := by
    intro r hr
    split
    · next h => exact hkey r hr h
    · rfl
  have hl : ∀ r ∈ s.counters, (if r.id = id then f r else r).isLive = r.isLive := by
    intro r hr
    split
    · next h => exact hlive r hr h
    · rfl
  have hst : ∀ r ∈ s.counters, (if r.id = id then f r else r).stream = r.stream := fun r hr =>
    (liveKey_eq_iff.mp (hk r hr)).1
  simp only [streamRows_eq, changeCounter, List.filter_map]
  rw [List.filter_congr (q := fun r => decide (r.stream = stream ∧ r.isLive = true))]
  · refine (List.map_insertionSort _ _ _ _ fun q hq r hr => ?_).symm
    rw [hk q (List.mem_of_mem_filter hq), hk r (List.mem_of_mem_filter hr)]
  · intro r hr
    simp only [Function.comp_apply, hst r hr, hl r hr]

theorem streamRows_changeCounter_of_ne {id : Id} {f : CounterRow → CounterRow} {stream : Stream}
    (hold : ∀ r ∈ s.counters, r.id = id → r.stream ≠ stream)
    (hnew : ∀ r ∈ s.counters, r.id = id → (f r).stream ≠ stream) :
    (s.changeCounter id f).streamRows stream = s.streamRows stream := by
  simp only [streamRows, changeCounter, List.filter_map]
  rw [List.filter_congr (q := fun r => decide (r.stream = stream ∧ r.isLive = true)),
    List.map_congr_left (g := fun r => r), List.map_id']
  · intro r hr
    obtain ⟨hr, h⟩ := List.mem_filter.mp hr
    exact if_neg fun hi => hold r hr hi (of_decide_eq_true h).1
  · intro r hr
    by_cases h : r.id = id
    · simp only [Function.comp_apply, if_pos h, hold r hr h, hnew r hr h, false_and]
    · simp only [Function.comp_apply, if_neg h]

namespace Advances

theorem tables (h : s.Advances a c t) : t = { s with counters := t.counters } := by
  cases h <;> rfl

theorem stream (h : s.Advances a c t) : c.stream = a.stream := by
  cases h with
  | first => rfl
  | next rows selected => rw [next_stream]; exact (mem_of_rows rows (mem_of_select? selected)).2.1

theorem isLive (h : s.Advances a c t) : c.isLive := by
  cases h with
  | first => rfl
  | next rows selected =>
    rw [Counter.isLive, next_retired]
    exact (mem_of_rows rows (mem_of_select? selected)).2.2.1

theorem storable (h : s.Advances a c t) : c.Storable := by
  cases h <;> assumption

theorem not_rolls (h : s.Advances a c t) : ¬ a.Rolls c := by
  cases h with
  | first => exact fun h => h.2 rfl
  | @next counters d rows selected =>
    by_cases hr : a.Rolls d
    · rw [next_of_rolls hr]; exact fun h => h.2 rfl
    · rw [next_of_not_rolls hr]; exact hr

theorem mem_counters (h : s.Advances a c t) {q : CounterRow} :
    q ∈ t.counters ↔ q = .encode c ∨ q ∈ s.counters ∧ q.id ≠ c.id := by
  cases h with
  | first rows selected keyFree idFree =>
    simp only [List.mem_append, List.mem_singleton]
    constructor
    · rintro (hq | rfl)
      · exact Or.inr ⟨hq, idFree q hq⟩
      · exact Or.inl rfl
    · rintro (rfl | ⟨hq, _⟩)
      · exact Or.inr rfl
      · exact Or.inl hq
  | @next counters d rows selected =>
    rw [mem_changeCounter, next_id]
    constructor
    · rintro (⟨r, _, _, rfl⟩ | hq)
      · exact Or.inl rfl
      · exact Or.inr hq
    · rintro (rfl | hq)
      · exact Or.inl ⟨_, (mem_of_rows rows (mem_of_select? selected)).1, rfl, rfl⟩
      · exact Or.inr hq

theorem lawful (hs : s.Lawful) (h : s.Advances a c t) : t.Lawful := by
  cases h with
  | first rows selected keyFree idFree =>
    exact hs.add (r := .encode a.firstCounter)
      (addCounter_eq_ok_iff.mpr ⟨fun _ => keyFree, idFree, rfl⟩)
  | @next counters d rows selected fits keyFree =>
    exact hs.replace (fun _ _ _ => next_id _ _) fun _ _ _ _ => keyFree

/-- Either the values of the year begin, in a counter that is new or of an earlier year or of none,
or a counter goes on in its own year. -/
theorem begins_or_goes_on (hs : s.Keyed) (h : s.Advances a c t) :
    (c.year = some a.year ∧ (∀ r ∈ s.streamRows a.stream, r.year ≠ some a.year) ∧
        ∀ r ∈ s.streamRows a.stream, r.id = c.id → ∀ y ∈ r.year, y ≤ a.year) ∨
      ∃ r ∈ s.streamRows a.stream, r.id = c.id ∧ r.year = c.year ∧ r.value < c.value := by
  cases h with
  | @first counters rows selected keyFree idFree =>
    obtain ⟨he, -⟩ := CounterRow.decodeAll_eq_ok_iff.mp rows
    refine Or.inl ⟨rfl, fun r hr hy => ?_, fun r hr hi => ?_⟩
    · obtain ⟨d, hd, rfl⟩ := List.mem_map.mp (he ▸ hr)
      have := select?_eq_none_iff.mp selected d hd
      rw [isReached_of_year hy] at this
      cases this
    · exact absurd hi (idFree r (Store.mem_streamRows.mp hr).1)
  | @next counters d rows selected =>
    obtain ⟨he, -⟩ := CounterRow.decodeAll_eq_ok_iff.mp rows
    have hd : CounterRow.encode d ∈ s.streamRows a.stream :=
      he ▸ List.mem_map_of_mem (mem_of_select? selected)
    by_cases hr : a.Rolls d
    · obtain hy | ⟨hother, hreached⟩ := year_of_select? selected
      · exact absurd hy hr.2
      · rw [next_of_rolls hr]
        refine Or.inl ⟨rfl, fun r hr => ?_, fun r hr hi y hy => ?_⟩
        · obtain ⟨e, he, rfl⟩ := List.mem_map.mp (he ▸ hr)
          exact hother e he
        · have := hs.counter_eq (Store.mem_streamRows.mp hr).1 (Store.mem_streamRows.mp hd).1 hi
          rw [this, encode_year, Option.mem_def] at hy
          rw [isReached, hy] at hreached
          exact of_decide_eq_true hreached
    · rw [next_of_not_rolls hr]
      exact Or.inr ⟨_, hd, rfl, rfl, Int.lt_succ d.value⟩

theorem stream_of_id (hs : s.Keyed) (h : s.Advances a c t) {r : CounterRow}
    (hr : r ∈ s.counters) (hi : r.id = c.id) : r.stream = a.stream := by
  cases h with
  | first rows selected keyFree idFree => exact absurd hi (idFree r hr)
  | next rows selected =>
    obtain ⟨hm, hst, -⟩ := mem_of_rows rows (mem_of_select? selected)
    rw [hs.counter_eq hr hm (hi.trans (next_id _ _))]
    exact hst

theorem mem_streamRows (h : s.Advances a c t) : CounterRow.encode c ∈ t.streamRows a.stream :=
  Store.mem_streamRows.mpr ⟨h.mem_counters.mpr (Or.inl rfl), h.stream, h.isLive⟩

theorem streamRows_of_ne (hs : s.Keyed) (h : s.Advances a c t) {stream : Stream}
    (hne : stream ≠ a.stream) : t.streamRows stream = s.streamRows stream := by
  cases h with
  | first =>
    have : decide ((CounterRow.encode a.firstCounter).stream = stream ∧
        (CounterRow.encode a.firstCounter).isLive = true) = false :=
      decide_eq_false fun h => hne h.1.symm
    simp only [streamRows, List.filter_append, List.filter_cons, this, List.filter_nil]
    rw [if_neg (by simp), List.append_nil]
  | @next counters d rows selected =>
    obtain ⟨hm, hst, -⟩ := mem_of_rows rows (mem_of_select? selected)
    have hd : ∀ r ∈ s.counters, r.id = d.id → r.stream = a.stream := fun r hr h => by
      rw [hs.counter_eq hr hm h]; exact hst
    have hn : (CounterRow.encode (a.next d)).stream = a.stream := (next_stream a d).trans hst
    exact streamRows_changeCounter_of_ne (fun r hr hi => by rw [hd r hr hi]; exact hne.symm)
      (fun _ _ _ => by rw [hn]; exact hne.symm)

theorem exists_rows (h : s.Advances a c t) :
    ∃ counters, CounterRow.decodeAll (t.streamRows a.stream) = .ok counters := by
  rw [CounterRow.exists_decodeAll_iff]
  intro r hr
  obtain ⟨hr, hst, hl⟩ := Store.mem_streamRows.mp hr
  rcases h.mem_counters.mp hr with rfl | ⟨hr, -⟩
  · exact ⟨c, rfl, h.storable⟩
  · have hm := Store.mem_streamRows.mpr ⟨hr, hst, hl⟩
    cases h with
    | first rows => exact CounterRow.exists_decodeAll_iff.mp ⟨_, rows⟩ r hm
    | next rows => exact CounterRow.exists_decodeAll_iff.mp ⟨_, rows⟩ r hm

/-- The counter that has handed out a value serves the next allocation of the year too. -/
theorem reselects (hs : s.Lawful) (h : s.Advances a c t) :
    ∃ counters, CounterRow.decodeAll (t.streamRows a.stream) = .ok counters ∧
      select? counters a.year = some c := by
  obtain ⟨counters, hrows⟩ := h.exists_rows
  refine ⟨counters, hrows, ?_⟩
  obtain ⟨he, -⟩ := CounterRow.decodeAll_eq_ok_iff.mp hrows
  by_cases hy : c.year = some a.year
  · -- No other row of the stream has the year.
    refine select?_of_only (mem_of_encode (he ▸ h.mem_streamRows)) hy fun d hd hdy => ?_
    have hm : CounterRow.encode d ∈ t.streamRows a.stream := he ▸ List.mem_map_of_mem hd
    exact encode_injective ((h.lawful hs).eq_of_year hm h.mem_streamRows (hdy.trans hy.symm))
  · -- No year has changed, and so the same counter is selected.
    cases h with
    | first => exact absurd rfl hy
    | @next before d rows selected =>
      have hr : ¬ a.Rolls d := fun hr => hy (by rw [next_of_rolls hr])
      obtain ⟨hb, -⟩ := CounterRow.decodeAll_eq_ok_iff.mp rows
      have hm := (mem_of_rows rows (mem_of_select? selected)).1
      have hcounters : counters = before.map (a.tick d.id) := by
        apply List.map_injective_iff.mpr fun _ _ => encode_injective
        rw [← he, streamRows_changeCounter, hb, List.map_map, List.map_map]
        · refine List.map_congr_left fun e he => ?_
          by_cases hi : e.id = d.id
          · obtain rfl : e = d := encode_injective
              (hs.counter_eq (mem_of_rows rows he).1 hm hi)
            simp only [Function.comp_apply, encode_id, if_true, tick_self hr]
          · have ht : a.tick d.id e = e := if_neg hi
            exact (if_neg hi).trans (congrArg CounterRow.encode ht).symm
        · intro r hr' hi
          rw [hs.counter_eq hr' hm hi, next_of_not_rolls hr]
          rfl
        · intro r hr' hi
          rw [hs.counter_eq hr' hm hi, next_of_not_rolls hr]
          rfl
      rw [hcounters, select?_map (tick_year a d.id) fun e => by rw [tick_settings], selected,
        Option.map_some, tick_self hr]

theorem value_eq (h : s.Advances a c t)
    (hrows : CounterRow.decodeAll (s.streamRows a.stream) = .ok counters) :
    c.value = lastValue counters a.year + 1 := by
  cases h with
  | first rows selected =>
    obtain rfl := Except.ok.inj (rows.symm.trans hrows)
    rw [lastValue_of_none selected]
    rfl
  | next rows selected =>
    obtain rfl := Except.ok.inj (rows.symm.trans hrows)
    rw [lastValue_of_some selected]
    rfl

theorem id_eq (h : s.Advances a c t)
    (hrows : CounterRow.decodeAll (s.streamRows a.stream) = .ok counters) {d : Counter}
    (hd : select? counters a.year = some d) : c.id = d.id := by
  cases h with
  | first rows selected =>
    obtain rfl := Except.ok.inj (rows.symm.trans hrows)
    cases selected.symm.trans hd
  | next rows selected =>
    obtain rfl := Except.ok.inj (rows.symm.trans hrows)
    obtain rfl := Option.some.inj (selected.symm.trans hd)
    exact next_id _ _

/-- The value handed out is the last one of the year from then on. -/
theorem lastValue_eq (hs : s.Lawful) (h : s.Advances a c t) :
    ∃ counters, CounterRow.decodeAll (t.streamRows a.stream) = .ok counters ∧
      select? counters a.year = some c ∧ lastValue counters a.year = c.value := by
  obtain ⟨counters, hrows, hselect⟩ := h.reselects hs
  refine ⟨counters, hrows, hselect, (lastValue_of_some hselect).trans ?_⟩
  rw [rolledOver_of_not_rolls h.not_rolls]

end Advances

end Store

end Docket
