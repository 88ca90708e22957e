import Docket.Proofs.Appearance
import Docket.Proofs.Uniqueness

/-! # Clocks that go back

Counters that reset move on from year to year in place. When a clock comes back to a year that a
counter has moved on from, no counter has that year any more, and its numbers begin anew. That, and
nothing else, makes numbers of a stream look alike.
-/

namespace Docket

open Store Issuing Simulation

/-- The years of the counters of a stream once a number of a year has been taken: if no counter has
the year, the one of the latest year before it moves on, and if there is none, one is added. -/
def turnTo (years : List Int) (year : Int) : List Int :=
  if year ∈ years then years
  else year :: years.filter fun y => (years.filter (· < year)).max? ≠ some y

/-- The years of the counters of a stream after numbers of some years have been taken. -/
def counterYears (readings : List Int) : List Int := readings.foldl turnTo []

/-- A clock comes back to a year that no counter has any more. -/
def Returns (readings : List Int) : Prop :=
  ∃ before year after, readings = before ++ year :: after ∧ year ∈ before ∧
    year ∉ counterYears before

theorem counterYears_concat (readings : List Int) (year : Int) :
    counterYears (readings ++ [year]) = turnTo (counterYears readings) year := by
  rw [counterYears, List.foldl_concat, counterYears]

theorem turnTo_of_mem {years : List Int} {year : Int} (h : year ∈ years) :
    turnTo years year = years :=
  if_pos h

theorem mem_turnTo_of_not_mem {years : List Int} {year y : Int} (h : year ∉ years) :
    y ∈ turnTo years year ↔
      y = year ∨ y ∈ years ∧ (years.filter (· < year)).max? ≠ some y := by
  rw [turnTo, if_neg h, List.mem_cons, List.mem_filter, decide_eq_true_eq]

theorem mem_of_mem_counterYears {readings : List Int} {y : Int} (h : y ∈ counterYears readings) :
    y ∈ readings := by
  induction readings using List.reverseRecOn with
  | nil => exact h
  | append_singleton readings year ih =>
    rw [counterYears_concat] at h
    by_cases hmem : year ∈ counterYears readings
    · rw [turnTo_of_mem hmem] at h
      exact List.mem_append_left _ (ih h)
    · rcases (mem_turnTo_of_not_mem hmem).mp h with rfl | ⟨hy, -⟩
      · exact List.mem_append_right _ (List.mem_singleton_self _)
      · exact List.mem_append_left _ (ih hy)

/-- Whether a clock has come back shows in its last reading or before. -/
theorem returns_concat_iff {readings : List Int} {year : Int} :
    Returns (readings ++ [year]) ↔
      Returns readings ∨ year ∈ readings ∧ year ∉ counterYears readings := by
  constructor
  · rintro ⟨before, y, after, heq, hmem, hlost⟩
    cases after using List.reverseRecOn with
    | nil =>
      obtain ⟨rfl, hlast⟩ := List.append_inj' heq rfl
      obtain rfl := (List.cons.inj hlast).1
      exact Or.inr ⟨hmem, hlost⟩
    | append_singleton after z =>
      rw [← List.cons_append, ← List.append_assoc] at heq
      obtain ⟨rfl, -⟩ := List.append_inj' heq rfl
      exact Or.inl ⟨before, y, after, rfl, hmem, hlost⟩
  · rintro (⟨before, y, after, rfl, hmem, hlost⟩ | ⟨hmem, hlost⟩)
    · exact ⟨before, y, after ++ [year], by simp, hmem, hlost⟩
    · exact ⟨readings, year, [], rfl, hmem, hlost⟩

theorem not_returns_nil : ¬ Returns [] := by
  rintro ⟨before, year, after, heq, -⟩
  simp at heq

theorem mem_turnTo_self (years : List Int) (year : Int) : year ∈ turnTo years year := by
  by_cases h : year ∈ years
  · rw [turnTo_of_mem h]
    exact h
  · exact (mem_turnTo_of_not_mem h).mpr (Or.inl rfl)

theorem not_returns_of_pairwise {readings : List Int} (h : readings.Pairwise (· ≤ ·)) :
    ¬ Returns readings := by
  rintro ⟨before, year, after, rfl, hmem, hlost⟩
  obtain ⟨hbefore, -, hlater⟩ := List.pairwise_append.mp h
  cases before using List.reverseRecOn with
  | nil => exact List.not_mem_nil hmem
  | append_singleton before last =>
    have hle : last ≤ year :=
      hlater last (List.mem_append_right _ (List.mem_singleton_self _)) year List.mem_cons_self
    have hge : year ≤ last := by
      rcases List.mem_append.mp hmem with hmem | hmem
      · exact (List.pairwise_append.mp hbefore).2.2 year hmem last (List.mem_singleton_self _)
      · exact Int.le_of_eq (List.mem_singleton.mp hmem)
    obtain rfl := Int.le_antisymm hle hge
    refine hlost ?_
    rw [counterYears_concat]
    exact mem_turnTo_self _ _

/-- What tells a number from others of its stream. -/
def Number.place (n : Number) : Option Int × Int := (n.year, n.value)

namespace Store

variable {s t u : Store} {stream : Stream} {defaults : CounterDefaults} {a : Allocation}
  {c d : Counter} {r : CounterRow}

/-- Rows of counters as they are added on first use, and as allocations leave them. -/
structure CounterRow.Plain (defaults : CounterDefaults) (r : CounterRow) : Prop where
  lead : r.lead = none
  pattern : r.pattern = none
  padding : r.padding = defaults.padding
  resets : r.resets = defaults.resets
  year : r.year.isSome = true

theorem Advances.plain (h : s.Advances a c t)
    (hs : ∀ r ∈ s.streamRows a.stream, r.Plain a.defaults) :
    (CounterRow.encode c).Plain a.defaults := by
  cases h with
  | first => exact ⟨rfl, rfl, rfl, rfl, rfl⟩
  | @next counters d rows selected =>
    obtain ⟨hd, hstream, hlive, -⟩ := mem_of_rows rows (mem_of_select? selected)
    have hplain := hs _ (Store.mem_streamRows.mpr ⟨hd, hstream, hlive⟩)
    by_cases hrolls : a.Rolls d
    · rw [Allocation.next_of_rolls hrolls]
      exact ⟨hplain.lead, hplain.pattern, hplain.padding, hplain.resets, rfl⟩
    · rw [Allocation.next_of_not_rolls hrolls]
      exact ⟨hplain.lead, hplain.pattern, hplain.padding, hplain.resets, hplain.year⟩

theorem Advances.year_of_resets (h : s.Advances a c t)
    (hs : ∀ r ∈ s.streamRows a.stream, r.Plain a.defaults) (hresets : a.defaults.resets = true) :
    c.year = some a.year := by
  have hc : c.settings.resets = true := (h.plain hs).resets.trans hresets
  exact Decidable.not_not.mp fun hother => h.not_rolls ⟨hc, hother⟩

section Shown

variable (hc : (CounterRow.encode c).Plain defaults) (hd : (CounterRow.encode d).Plain defaults)
  (hstream : c.stream = d.stream)

include hc hd hstream

theorem formatted_eq_iff :
    c.number.formatted = d.number.formatted ↔ c.number.place = d.number.place := by
  have hplace : c.number.place = d.number.place ↔ c.year = d.year ∧ c.value = d.value :=
    Prod.ext_iff
  have halike : (CounterRow.encode c).PlainAlike (.encode d) :=
    { left := hc.pattern
      right := hd.pattern
      lead := hc.lead.trans hd.lead.symm
      padding := hc.padding.trans hd.padding.symm }
  rw [hplace]
  exact Counter.formatted_eq_iff_of_plain halike hstream

end Shown

/-- In counters that reset, the values of a year that no counter has begin at one, in the counter of
the latest year before it if there is one. -/
theorem Advances.begins (h : s.Advances a c t) (hs : s.Lawful)
    (hplain : ∀ r ∈ s.streamRows a.stream, r.Plain a.defaults)
    (hresets : a.defaults.resets = true)
    (hnone : ∀ r ∈ s.streamRows a.stream, r.year ≠ some a.year) :
    c.value = 1 ∧ ∀ r ∈ s.streamRows a.stream, ∀ y ∈ r.year,
      (r.id = c.id ↔
        y < a.year ∧ ∀ q ∈ s.streamRows a.stream, ∀ z ∈ q.year, z < a.year → z ≤ y) := by
  cases h with
  | @first counters rows selected keyFree idFree =>
    obtain ⟨hrows, -⟩ := CounterRow.decodeAll_eq_ok_iff.mp rows
    refine ⟨rfl, fun r hr y hy => iff_of_false (idFree r (Store.mem_streamRows.mp hr).1) ?_⟩
    rintro ⟨hlt, -⟩
    obtain ⟨d, hd, rfl⟩ := List.mem_map.mp (hrows ▸ hr)
    have hlater := select?_eq_none_iff.mp selected d hd
    rw [isReached, show d.year = some y from hy] at hlater
    exact of_decide_eq_false hlater (Int.le_of_lt hlt)
  | @next counters d rows selected =>
    obtain ⟨hrows, -⟩ := CounterRow.decodeAll_eq_ok_iff.mp rows
    have hd : CounterRow.encode d ∈ s.streamRows a.stream :=
      hrows ▸ List.mem_map_of_mem (mem_of_select? selected)
    have hall : ∀ e ∈ counters, e.settings.resets = true := fun e he =>
      (hplain _ (hrows ▸ List.mem_map_of_mem he)).resets.trans hresets
    have hother : d.year ≠ some a.year := hnone _ hd
    obtain ⟨x, hx⟩ := Option.isSome_iff_exists.mp (hplain _ hd).year
    have hlt : x < a.year := year_lt_of_select? selected hother hx
    have hlatest : ∀ q ∈ s.streamRows a.stream, ∀ z ∈ q.year, z < a.year → z ≤ x := by
      intro q hq z hz hza
      obtain ⟨e, he, rfl⟩ := List.mem_map.mp (hrows ▸ hq)
      exact year_le_of_select? hall selected hother hx he hz hza
    rw [Allocation.next_of_rolls ⟨hall d (mem_of_select? selected), hother⟩]
    refine ⟨rfl, fun r hr y hy => ?_⟩
    constructor
    · intro hid
      obtain rfl := hs.counter_eq (Store.mem_streamRows.mp hr).1 (Store.mem_streamRows.mp hd).1 hid
      obtain rfl : x = y := Option.some.inj (hx.symm.trans hy)
      exact ⟨hlt, hlatest⟩
    · rintro ⟨hya, hmax⟩
      have hxy : x = y := Int.le_antisymm (hmax _ hd x hx hlt) (hlatest r hr y hy hya)
      exact congrArg CounterRow.id (hs.eq_of_year hr hd (hy.trans (hxy ▸ hx.symm)))

theorem Advances.year_of_id (h : s.Advances a c t) (hs : s.Keyed)
    (hplain : ∀ r ∈ s.streamRows a.stream, r.Plain a.defaults)
    (hresets : a.defaults.resets = false) (hr : r ∈ s.streamRows a.stream) (hid : r.id = c.id) :
    r.year = c.year := by
  cases h with
  | first rows selected keyFree idFree => exact absurd hid (idFree r (Store.mem_streamRows.mp hr).1)
  | @next counters d rows selected =>
    obtain ⟨hd, hstream, hlive, -⟩ := mem_of_rows rows (mem_of_select? selected)
    have hlasting := (hplain _ (Store.mem_streamRows.mpr ⟨hd, hstream, hlive⟩)).resets.trans hresets
    have hrolls : ¬ a.Rolls d := fun hrolls => by cases hlasting.symm.trans hrolls.1
    rw [Allocation.next_id] at hid
    rw [hs.counter_eq (Store.mem_streamRows.mp hr).1 hd hid, Allocation.next_of_not_rolls hrolls,
      encode_year]

section Taken

variable {rows : List CounterRow} {numbers : List Number} {taken : List (Int × Number)}

/-- Numbers that differ by year or value, and that no counter of their year is behind. -/
structure Covered (rows : List CounterRow) (numbers : List Number) : Prop where
  covers : ∀ n ∈ numbers, ∀ r ∈ rows, r.year = n.year → n.value ≤ r.value
  distinct : (numbers.map Number.place).Nodup

/-- Where a year begins that none of the numbers has, the next number differs from them. -/
theorem Covered.of_advances (h : Covered (s.streamRows a.stream) numbers) (hs : s.Lawful)
    (ha : s.Advances a c t)
    (hbegins : (∀ r ∈ s.streamRows a.stream, r.year ≠ c.year) → ∀ n ∈ numbers, n.year ≠ c.year) :
    Covered (t.streamRows a.stream) (numbers ++ [c.number]) := by
  have hbehind : ∀ n ∈ numbers, n.year = c.year → n.value < c.value := by
    intro n hn hyear
    rcases ha.begins_or_goes_on hs.toKeyed with ⟨hcurrent, hnone, -⟩ | ⟨r, hr, -, hry, hlt⟩
    · exact absurd hyear (hbegins (fun r hr => hcurrent ▸ hnone r hr) n hn)
    · exact Int.lt_of_le_of_lt (h.covers n hn r hr (hry.trans hyear.symm)) hlt
  constructor
  case covers =>
    intro n hn q hq hyear
    rcases List.mem_append.mp hn with hn | hn
    · rcases (ha.mem_streamRows_iff rfl).mp hq with ⟨rfl, -⟩ | ⟨hq, -⟩
      · exact Int.le_of_lt (hbehind n hn hyear.symm)
      · exact h.covers n hn q hq hyear
    · obtain rfl := List.mem_singleton.mp hn
      rw [(ha.lawful hs).eq_of_year hq ha.mem_streamRows hyear]
      exact Int.le_refl _
  case distinct =>
    rw [List.map_append, List.map_singleton, ← List.concat_eq_append]
    refine h.distinct.concat fun hmem => ?_
    obtain ⟨n, hn, hplace⟩ := List.mem_map.mp hmem
    obtain ⟨hyear, hvalue⟩ := Prod.ext_iff.mp hplace
    exact absurd hvalue (Int.ne_of_lt (hbehind n hn hyear))

/-- A stream of counters that reset: they have the years that the readings of the clocks leave, each
number is of the year that was read, and each such year has a first number. -/
structure Turning (rows : List CounterRow) (taken : List (Int × Number)) : Prop where
  years : ∀ y, y ∈ counterYears (taken.map Prod.fst) ↔ ∃ r ∈ rows, r.year = some y
  read : ∀ x ∈ taken, x.2.year = some x.1
  begun : ∀ x ∈ taken, (some x.1, 1) ∈ taken.map fun x => x.2.place
  repeats : Returns (taken.map Prod.fst) → ¬ (taken.map fun x => x.2.place).Nodup

section Years

variable (h : Turning (s.streamRows a.stream) taken) (hs : s.Lawful) (ha : s.Advances a c t)
  (hyear : c.year = some a.year)

include h hs ha hyear

theorem Turning.exists_year_iff_of_mem (hmem : a.year ∈ counterYears (taken.map Prod.fst))
    (y : Int) :
    (∃ r ∈ t.streamRows a.stream, r.year = some y) ↔ y ∈ counterYears (taken.map Prod.fst) := by
  obtain ⟨p, hp, hpy⟩ := (h.years a.year).mp hmem
  have hpc : ∀ r ∈ s.streamRows a.stream, r.id = c.id → r = p := by
    intro r hr hid
    rcases ha.begins_or_goes_on hs.toKeyed with ⟨-, hnone, -⟩ | ⟨q, hq, hqi, hqy, -⟩
    · exact absurd hpy (hnone p hp)
    · have hqp : q = p := hs.eq_of_year hq hp (hqy.trans (hyear.trans hpy.symm))
      refine hs.counter_eq (mem_streamRows.mp hr).1 (mem_streamRows.mp hp).1 ?_
      exact hid.trans (hqp ▸ hqi.symm)
  rw [h.years]
  constructor
  · rintro ⟨q, hq, hqy⟩
    rcases (ha.mem_streamRows_iff rfl).mp hq with ⟨rfl, -⟩ | ⟨hq, -⟩
    · exact ⟨p, hp, hpy.trans (hyear.symm.trans hqy)⟩
    · exact ⟨q, hq, hqy⟩
  · rintro ⟨r, hr, hry⟩
    by_cases hid : r.id = c.id
    · obtain rfl := hpc r hr hid
      exact ⟨.encode c, ha.mem_streamRows, hyear.trans (hpy.symm.trans hry)⟩
    · exact ⟨r, (ha.mem_streamRows_iff rfl).mpr (Or.inr ⟨hr, hid⟩), hry⟩

variable (hplain : ∀ r ∈ s.streamRows a.stream, r.Plain a.defaults)
  (hresets : a.defaults.resets = true)

include hplain hresets

theorem Turning.exists_year_iff_of_not_mem (hmem : a.year ∉ counterYears (taken.map Prod.fst))
    (y : Int) :
    (∃ r ∈ t.streamRows a.stream, r.year = some y) ↔
      y = a.year ∨ y ∈ counterYears (taken.map Prod.fst) ∧
        ((counterYears (taken.map Prod.fst)).filter (· < a.year)).max? ≠ some y := by
  obtain ⟨-, hmoved⟩ := ha.begins hs hplain hresets fun r hr hry =>
    hmem ((h.years a.year).mpr ⟨r, hr, hry⟩)
  -- The latest of the years before is that of the counter that moves on.
  have hlatest : ∀ r ∈ s.streamRows a.stream, r.year = some y →
      (((counterYears (taken.map Prod.fst)).filter (· < a.year)).max? = some y ↔
        r.id = c.id) := by
    intro r hr hry
    rw [hmoved r hr y hry, List.max?_eq_some_iff]
    simp only [List.mem_filter, decide_eq_true_eq, h.years]
    constructor
    · rintro ⟨⟨-, hlt⟩, hmax⟩
      exact ⟨hlt, fun q hq z hz hza => hmax z ⟨⟨q, hq, hz⟩, hza⟩⟩
    · rintro ⟨hlt, hmax⟩
      exact ⟨⟨⟨r, hr, hry⟩, hlt⟩, fun z ⟨⟨q, hq, hz⟩, hza⟩ => hmax q hq z hz hza⟩
  rw [h.years]
  constructor
  · rintro ⟨q, hq, hqy⟩
    rcases (ha.mem_streamRows_iff rfl).mp hq with ⟨rfl, -⟩ | ⟨hq, hid⟩
    · exact Or.inl (Option.some.inj (hqy.symm.trans hyear))
    · exact Or.inr ⟨⟨q, hq, hqy⟩, fun hmax => hid ((hlatest q hq hqy).mp hmax)⟩
  · rintro (rfl | ⟨⟨r, hr, hry⟩, hne⟩)
    · exact ⟨.encode c, ha.mem_streamRows, hyear⟩
    · refine ⟨r, (ha.mem_streamRows_iff rfl).mpr (Or.inr ⟨hr, fun hid => ?_⟩), hry⟩
      exact hne ((hlatest r hr hry).mpr hid)

theorem Turning.years_of_advances (y : Int) :
    y ∈ counterYears ((taken ++ [(a.year, c.number)]).map Prod.fst) ↔
      ∃ r ∈ t.streamRows a.stream, r.year = some y := by
  rw [List.map_append, List.map_singleton, counterYears_concat]
  by_cases hmem : a.year ∈ counterYears (taken.map Prod.fst)
  · rw [turnTo_of_mem hmem, h.exists_year_iff_of_mem hs ha hyear hmem]
  · rw [mem_turnTo_of_not_mem hmem,
      h.exists_year_iff_of_not_mem hs ha hyear hplain hresets hmem]

end Years

theorem Turning.of_advances (h : Turning (s.streamRows a.stream) taken) (hs : s.Lawful)
    (ha : s.Advances a c t) (hplain : ∀ r ∈ s.streamRows a.stream, r.Plain a.defaults)
    (hresets : a.defaults.resets = true) (hyear : c.year = some a.year) :
    Turning (t.streamRows a.stream) (taken ++ [(a.year, c.number)]) := by
  have hfirst : a.year ∉ counterYears (taken.map Prod.fst) → c.value = 1 := by
    intro hmem
    refine (ha.begins hs hplain hresets fun r hr hry => hmem ?_).1
    exact (h.years a.year).mpr ⟨r, hr, hry⟩
  have hbegun : ∀ y ∈ taken.map Prod.fst, (some y, 1) ∈ taken.map fun x => x.2.place := by
    intro y hy
    obtain ⟨x, hx, rfl⟩ := List.mem_map.mp hy
    exact h.begun x hx
  constructor
  case years => exact h.years_of_advances hs ha hyear hplain hresets
  case read =>
    intro x hx
    rcases List.mem_append.mp hx with hx | hx
    · exact h.read x hx
    · rw [List.mem_singleton.mp hx]
      exact hyear
  case begun =>
    intro x hx
    rw [List.map_append]
    rcases List.mem_append.mp hx with hx | hx
    · exact List.mem_append_left _ (h.begun x hx)
    · rw [List.mem_singleton.mp hx]
      by_cases hmem : a.year ∈ counterYears (taken.map Prod.fst)
      · exact List.mem_append_left _ (hbegun _ (mem_of_mem_counterYears hmem))
      · refine List.mem_append_right _ (List.mem_singleton.mpr ?_)
        exact Prod.ext hyear.symm (hfirst hmem).symm
  case repeats =>
    intro hreturns hnodup
    rw [List.map_append, List.map_singleton] at hreturns hnodup
    rw [← List.concat_eq_append, List.nodup_concat] at hnodup
    rcases returns_concat_iff.mp hreturns with hreturns | ⟨hread, hlost⟩
    · exact h.repeats hreturns hnodup.2
    · refine hnodup.1 ?_
      rw [show Number.place c.number = (some a.year, 1) from Prod.ext hyear (hfirst hlost)]
      exact hbegun _ hread

/-- All that the numbers of a stream and its counters tell of each other. -/
structure Tally (defaults : CounterDefaults) (stream : Stream) (rows : List CounterRow)
    (taken : List (Int × Number)) : Prop where
  plain : ∀ r ∈ rows, r.Plain defaults
  shown : ∀ x ∈ taken, ∃ c : Counter,
    c.stream = stream ∧ (CounterRow.encode c).Plain defaults ∧ c.number = x.2
  turning : defaults.resets = true → Turning rows taken
  lasting : defaults.resets = false → ∀ x ∈ taken, ∃ r ∈ rows, r.year = x.2.year
  covered : ¬ (defaults.resets = true ∧ Returns (taken.map Prod.fst)) →
    Covered rows (taken.map Prod.snd)

theorem tally_nil (defaults : CounterDefaults) (stream : Stream) : Tally defaults stream [] [] := by
  constructor
  case plain => exact fun _ h => absurd h List.not_mem_nil
  case shown => exact fun _ h => absurd h List.not_mem_nil
  case turning =>
    refine fun _ => ⟨fun y => ?_, nofun, nofun, fun h => absurd h not_returns_nil⟩
    simp [counterYears]
  case lasting => exact fun _ _ h => absurd h List.not_mem_nil
  case covered => exact fun _ => ⟨nofun, List.nodup_nil⟩

theorem Tally.of_advances (h : Tally a.defaults a.stream (s.streamRows a.stream) taken)
    (hs : s.Lawful) (ha : s.Advances a c t) :
    Tally a.defaults a.stream (t.streamRows a.stream) (taken ++ [(a.year, c.number)]) := by
  have hplain := ha.plain h.plain
  constructor
  case plain =>
    intro q hq
    rcases (ha.mem_streamRows_iff rfl).mp hq with ⟨rfl, -⟩ | ⟨hq, -⟩
    · exact hplain
    · exact h.plain q hq
  case shown =>
    intro x hx
    rcases List.mem_append.mp hx with hx | hx
    · exact h.shown x hx
    · rw [List.mem_singleton.mp hx]
      exact ⟨c, ha.stream, hplain, rfl⟩
  case turning =>
    intro hresets
    exact (h.turning hresets).of_advances hs ha h.plain hresets (ha.year_of_resets h.plain hresets)
  case lasting =>
    intro hresets x hx
    rcases List.mem_append.mp hx with hx | hx
    · obtain ⟨r, hr, hry⟩ := h.lasting hresets x hx
      by_cases hid : r.id = c.id
      · have hyear := ha.year_of_id hs.toKeyed h.plain hresets hr hid
        exact ⟨.encode c, ha.mem_streamRows, hyear.symm.trans hry⟩
      · exact ⟨r, (ha.mem_streamRows_iff rfl).mpr (Or.inr ⟨hr, hid⟩), hry⟩
    · rw [List.mem_singleton.mp hx]
      exact ⟨.encode c, ha.mem_streamRows, rfl⟩
  case covered =>
    intro hkept
    rw [List.map_append, List.map_singleton] at hkept ⊢
    have hbefore : ¬ (a.defaults.resets = true ∧ Returns (taken.map Prod.fst)) :=
      fun ⟨hresets, hreturns⟩ => hkept ⟨hresets, returns_concat_iff.mpr (Or.inl hreturns)⟩
    refine (h.covered hbefore).of_advances hs ha fun hnone n hn hyear => ?_
    obtain ⟨x, hx, rfl⟩ := List.mem_map.mp hn
    cases hresets : a.defaults.resets with
    | false =>
      obtain ⟨r, hr, hry⟩ := h.lasting hresets x hx
      exact hnone r hr (hry.trans hyear)
    | true =>
      have hturning := h.turning hresets
      have hcurrent := ha.year_of_resets h.plain hresets
      have hread : x.1 = a.year :=
        Option.some.inj ((hturning.read x hx).symm.trans (hyear.trans hcurrent))
      refine hkept ⟨hresets, returns_concat_iff.mpr (Or.inr ⟨?_, fun hmem => ?_⟩)⟩
      · exact List.mem_map.mpr ⟨x, hx, hread⟩
      · obtain ⟨r, hr, hry⟩ := (hturning.years a.year).mp hmem
        exact hnone r hr (hry.trans hcurrent.symm)

theorem Tally.formatted_nodup_iff {stream : Stream} (h : Tally defaults stream rows taken) :
    (taken.map fun x => x.2.formatted).Nodup ↔
      ¬ (defaults.resets = true ∧ Returns (taken.map Prod.fst)) := by
  have hplaces : (taken.map fun x => x.2.formatted).Nodup ↔
      (taken.map fun x => x.2.place).Nodup := by
    rw [List.Nodup, List.Nodup, List.pairwise_map, List.pairwise_map]
    refine List.Pairwise.iff_of_mem fun hx hy => not_congr ?_
    obtain ⟨c, hcs, hc, hcx⟩ := h.shown _ hx
    obtain ⟨d, hds, hd, hdy⟩ := h.shown _ hy
    rw [← hcx, ← hdy]
    exact formatted_eq_iff hc hd (hcs.trans hds.symm)
  rw [hplaces]
  constructor
  · rintro hnodup ⟨hresets, hreturns⟩
    exact (h.turning hresets).repeats hreturns hnodup
  · intro hkept
    have hdistinct := (h.covered hkept).distinct
    rwa [List.map_map] at hdistinct

end Taken

end Store

namespace Request

variable {service : Service} {call : Call} {request : Request} {step : Step}

/-- Requests that change counters without taking numbers from them. -/
def configures : Request → Bool
  | createCounter _ => true
  | updateCounter _ _ => true
  | deleteCounter _ => true
  | _ => false

theorem counters_of_asks (hrequest : request.configures = false)
    (h : Asks service call request step) (hallocation : Scene.allocation? step = none)
    {s t : Store} {reply : step.Reply} (hreplies : s.Replies step reply t) :
    t.counters = s.counters := by
  cases hreplies with
  | refused => rfl
  | served =>
    cases step with
    | allocate | assignNumber => cases hallocation
    | insertCounter | updateSettings | retireCounter =>
      cases request with
      | createCounter | updateCounter | deleteCounter => cases hrequest
      | _ => exact h.elim
    | insertDocument d =>
      exact commit_induction (P := fun t => t.counters = s.counters) rfl
        fun _ _ h => insertDocument_counters h
    | applyChange d expected c =>
      exact commit_induction (P := fun t => t.counters = s.counters) rfl
        fun _ _ h => applyChange_counters h
    | _ => rfl

end Request

section Run

open Course

variable {ι : Type} {service : Service} {jobs : ι → Job} {s : Store} {stream : Stream}
  {σ τ : Course ι fun i => (jobs i).Answer}

/-- Numbers that have been taken from a stream, each with the year that the clock read. -/
def datedNumbers (σ : Course ι fun i => (jobs i).Answer) (stream : Stream) :
    List (Int × Number) :=
  (σ.numbersOf stream).map fun p => ((jobs p.1).call.now.year, p.2)

/-- What the counters and the numbers of a stream have in common is kept by allocations. -/
def AllocationsKeep (service : Service) (stream : Stream)
    (P : List CounterRow → List (Int × Number) → Prop) : Prop :=
  ∀ (s t : Store) (a : Allocation) (c : Counter) (taken : List (Int × Number)), s.Lawful →
    s.Advances a c t → a.stream = stream → a.defaults = service.defaults →
      P (s.streamRows stream) taken → P (t.streamRows stream) (taken ++ [(a.year, c.number)])

variable [DecidableEq ι]

/-- The counters and the numbers of a stream tell of each other in a course. -/
structure Accords (service : Service) (jobs : ι → Job) (stream : Stream)
    (P : List CounterRow → List (Int × Number) → Prop)
    (σ : Course ι fun i => (jobs i).Answer) : Prop extends Conducted service jobs σ where
  lawful : σ.store.Lawful
  holds : P (σ.store.streamRows stream) (datedNumbers σ stream)

variable {P : List CounterRow → List (Int × Number) → Prop}

theorem Accords.move (h : Move σ τ) (hσ : Accords service jobs stream P σ)
    (hjobs : ∀ i, (jobs i).request.configures = false) (hP : AllocationsKeep service stream P) :
    Accords service jobs stream P τ := by
  have hconducted := hσ.toConducted.move h
  obtain ⟨hrest, hreplies⟩ := h
  rename_i i step next reply t
  have hasks := hσ.asks hrest
  refine ⟨hconducted, hreplies.lawful hσ.lawful, ?_⟩
  -- A stream whose counters stay, and from which no number is taken, is as it was.
  have hkept : step.issue? reply = none → t.counters = σ.store.counters →
      P (t.streamRows stream)
        (datedNumbers (σ.reply i ⟨σ.store, step, reply, t⟩ (next reply)) stream) := by
    intro hissue hcounters
    rw [datedNumbers, numbersOf_reply_of_none hissue, streamRows_congr hcounters]
    exact hσ.holds
  cases hallocation : Scene.allocation? step with
  | none =>
    exact hkept (Step.issue?_of_allocation? hallocation reply)
      (Request.counters_of_asks (hjobs i) hasks hallocation hreplies)
  | some a =>
    rcases hreplies.none_or_advances hσ.lawful.toKeyed (Or.inr ⟨a, hallocation⟩) with
      ⟨hissue, rfl⟩ | ⟨b, c, u, hb, hadvances, hcounters, hissue⟩
    · exact hkept hissue rfl
    · obtain rfl := Option.some.inj (hb.symm.trans hallocation)
      have hyear : b.year = (jobs i).call.now.year := Request.year_of_asks hasks hallocation
      have hdefaults : b.defaults = service.defaults := by
        obtain ⟨stream, rfl⟩ := Request.allocation_of_asks hasks hallocation
        rfl
      change P (t.streamRows stream) _
      rw [streamRows_congr hcounters]
      by_cases hstream : stream = b.stream
      · subst hstream
        rw [datedNumbers, numbersOf_reply_of_some hissue, List.map_append, List.map_singleton,
          ← hyear]
        exact hP _ _ b c _ hσ.lawful hadvances rfl hdefaults hσ.holds
      · rw [datedNumbers, numbersOf_reply_of_ne hissue hstream,
          hadvances.streamRows_of_ne hσ.lawful.toKeyed hstream]
        exact hσ.holds

/-- What holds of the counters of a stream at first, and is kept by allocations, holds of its
counters and numbers where calls do not configure counters. -/
theorem accords_of_reaches (hs : s.Lawful) (hstart : P (s.streamRows stream) [])
    (hP : AllocationsKeep service stream P) (hjobs : ∀ i, (jobs i).request.configures = false)
    (h : Reaches (.start s fun i => (jobs i).program service) σ) :
    Accords service jobs stream P σ := by
  induction h with
  | refl => exact ⟨conducted_start s, hs, hstart⟩
  | tail _ hmove ih => exact ih.move hmove hjobs hP

theorem tally_of_reaches (hs : s.Lawful) (hstream : s.streamRows stream = [])
    (hjobs : ∀ i, (jobs i).request.configures = false)
    (h : Reaches (.start s fun i => (jobs i).program service) σ) :
    Tally service.defaults stream (σ.store.streamRows stream) (datedNumbers σ stream) := by
  refine (accords_of_reaches (P := Tally service.defaults stream) hs ?_ ?_ hjobs h).holds
  · rw [hstream]
    exact tally_nil service.defaults stream
  · rintro s t a c taken hs ha rfl hdefaults htally
    rw [← hdefaults] at htally ⊢
    exact htally.of_advances hs ha

theorem numbers_differ_of_forward (hs : s.Lawful) (hstream : s.streamRows stream = [])
    (hjobs : ∀ i, (jobs i).request.configures = false)
    (h : Reaches (.start s fun i => (jobs i).program service) σ)
    (hclock : ((datedNumbers σ stream).map Prod.fst).Pairwise (· ≤ ·)) :
    ((datedNumbers σ stream).map fun x => x.2.formatted).Nodup := by
  refine (tally_of_reaches hs hstream hjobs h).formatted_nodup_iff.mpr ?_
  exact fun hreturns => not_returns_of_pairwise hclock hreturns.2

/-- Numbers of a stream whose counters are added by allocations look alike exactly if the counters
reset and a clock comes back to a year that no counter has any more. -/
theorem numbers_differ_iff (hs : s.Lawful) (hstream : s.streamRows stream = [])
    (hjobs : ∀ i, (jobs i).request.configures = false)
    (h : Reaches (.start s fun i => (jobs i).program service) σ) :
    ((datedNumbers σ stream).map fun x => x.2.formatted).Nodup ↔
      ¬ (service.defaults.resets = true ∧ Returns ((datedNumbers σ stream).map Prod.fst)) :=
  (tally_of_reaches hs hstream hjobs h).formatted_nodup_iff

/-- A clock that goes back over New Year after another counter has gone on brings a number again. -/
theorem numbers_differ_iff_turned :
    ((datedNumbers turned firstStream).map fun x => x.2.formatted)
        = ["2025/00001", "2026/00001", "2025/00001"] ∧
      Returns ((datedNumbers turned firstStream).map Prod.fst) := by
  have hformatted : ((datedNumbers turned firstStream).map fun x => x.2.formatted)
      = ["2025/00001", "2026/00001", "2025/00001"] := by decide +kernel
  have hreaches : Reaches (start {} fun i => (turning i).program {}) turned := reaches_replay _ _
  have hempty : ({} : Store).streamRows firstStream = [] := by simp [streamRows]
  have hiff := numbers_differ_iff lawful_empty hempty (by decide) hreaches
  refine ⟨hformatted, ?_⟩
  rw [hformatted] at hiff
  have hreturns := mt hiff.mpr (by decide)
  exact (Classical.not_not.mp hreturns).2

/-- Not all numbers of a stream look different, even where calls only take numbers. -/
theorem numbers_alike_turned :
    ¬ ∀ (service : Service) (jobs : Fin 3 → Job) (s : Store) (stream : Stream)
      (σ : Course (Fin 3) fun i => (jobs i).Answer), s.Lawful → s.streamRows stream = [] →
      (∀ i, (jobs i).request.asksNumber = true) →
      Reaches (.start s fun i => (jobs i).program service) σ →
      ((datedNumbers σ stream).map fun x => x.2.formatted).Nodup := by
  intro hall
  have hempty : ({} : Store).streamRows firstStream = [] := by simp [streamRows]
  have hnodup := hall {} turning {} firstStream turned lawful_empty hempty (by decide)
    (reaches_replay _ _)
  exact absurd hnodup (by decide +kernel)

end Run

end Docket
