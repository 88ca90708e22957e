import Docket.Proofs.Advance

/-! # Allocations that go through

An allocation needs rows that can be read, a value that does not overflow, usual settings and a new
identifier. On a lawful store nothing else can stand in its way, unless it is made in the year 0,
which is the same as no year to live keys.
-/

namespace Docket

open Store Issuing

namespace Store

open Allocation

variable {s : Store} {a : Allocation} {counters : List Counter}

/-- Whether the rows of the stream can be read and the next value does not overflow. -/
def plans (s : Store) (a : Allocation) : Bool :=
  match CounterRow.decodeAll (s.streamRows a.stream) with
  | .ok counters => (a.plan counters).isOk
  | .error _ => false

/-- What an allocation needs to go through. -/
structure Admits (s : Store) (a : Allocation) : Prop where
  plans : s.plans a
  padding : 1 ≤ a.defaults.padding ∧ a.defaults.padding ≤ 10
  yearFits : -int32Bound ≤ a.year ∧ a.year < int32Bound
  fresh : ∀ q ∈ s.counters, q.id ≠ a.fresh

instance (s : Store) (a : Allocation) : Decidable (s.Admits a) :=
  decidable_of_iff
    (s.plans a ∧ (1 ≤ a.defaults.padding ∧ a.defaults.padding ≤ 10) ∧
      (-int32Bound ≤ a.year ∧ a.year < int32Bound) ∧ ∀ q ∈ s.counters, q.id ≠ a.fresh)
    ⟨fun ⟨plans, padding, yearFits, fresh⟩ => ⟨plans, padding, yearFits, fresh⟩,
      fun h => ⟨h.plans, h.padding, h.yearFits, h.fresh⟩⟩

theorem plans_iff :
    s.plans a ↔ ∃ counters, CounterRow.decodeAll (s.streamRows a.stream) = .ok counters ∧
      ∃ write, a.plan counters = .ok write := by
  unfold plans
  cases CounterRow.decodeAll (s.streamRows a.stream) with
  | error f => simp
  | ok counters => cases hplan : a.plan counters <;> simp [hplan, Except.isOk, Except.toBool]

theorem keyFree_of_rows (hyear : a.year ≠ 0)
    (hrows : CounterRow.decodeAll (s.streamRows a.stream) = .ok counters)
    (hnone : ∀ d ∈ counters, d.year ≠ some a.year) {q : CounterRow} (hq : q ∈ s.counters)
    (hl : q.isLive) : q.liveKey ≠ (a.stream, a.year) := by
  intro hk
  obtain ⟨he, -⟩ := CounterRow.decodeAll_eq_ok_iff.mp hrows
  obtain ⟨hstream, hkey⟩ := Prod.ext_iff.mp hk
  obtain ⟨d, hd, rfl⟩ := List.mem_map.mp (he ▸ mem_streamRows.mpr ⟨hq, hstream, hl⟩)
  cases hy : d.year with
  | none =>
    rw [CounterRow.liveKey, encode_year, hy] at hkey
    exact hyear hkey.symm
  | some y =>
    rw [CounterRow.liveKey, encode_year, hy] at hkey
    exact hnone d hd (hy.trans (congrArg some hkey))

/-- Nothing else can stand in the way of an allocation. -/
theorem Admits.exists_advance (h : s.Admits a) (hyear : a.year ≠ 0) (hs : s.Lawful) :
    ∃ c t, s.advance a = .ok (c, t) := by
  obtain ⟨counters, hrows, write, hplan⟩ := plans_iff.mp h.plans
  suffices ∃ c t, s.Advances a c t by
    obtain ⟨c, t, hadvances⟩ := this
    exact ⟨c, t, hs.toKeyed.advance_eq_ok_iff.mpr hadvances⟩
  have hfits : ∀ y ∈ some a.year, -int32Bound ≤ y ∧ y < int32Bound := fun y hy =>
    Option.some.inj hy ▸ h.yearFits
  cases hselect : select? counters a.year with
  | none =>
    refine ⟨_, _, .first hrows hselect (fun q hq hl => ?_) h.fresh ⟨h.padding, hfits⟩⟩
    refine keyFree_of_rows hyear hrows (fun d hd hy => ?_) hq hl
    have := select?_eq_none_iff.mp hselect d hd
    rw [isReached_of_year hy] at this
    cases this
  | some d =>
    obtain ⟨hd, hstream, hlive, hstorable⟩ := mem_of_rows hrows (mem_of_select? hselect)
    have hvalue : (a.next d).value < int64Bound := by
      rw [plan_of_some hselect] at hplan
      by_contra hn
      rw [if_neg hn] at hplan
      cases hplan
    by_cases hr : a.Rolls d
    · have hnone : ∀ e ∈ counters, e.year ≠ some a.year := by
        rcases year_of_select? hselect with hy | ⟨hother, -⟩
        · exact absurd hy hr.2
        · exact hother
      refine ⟨_, _, .next hrows hselect hvalue (fun q hq hl hk => ?_) ?_⟩
      · refine absurd (hk.trans ?_) (keyFree_of_rows hyear hrows hnone hq hl)
        rw [next_of_rolls hr]
        exact Prod.ext hstream rfl
      · rw [next_of_rolls hr]
        exact ⟨hstorable.padding, hfits⟩
    · refine ⟨_, _, .next hrows hselect hvalue (fun q hq hl hk => ?_) ?_⟩
      · rw [next_of_not_rolls hr] at hk
        exact hs.liveKeys q hq _ hd hl hlive hk
      · rw [next_of_not_rolls hr]
        exact ⟨hstorable.padding, hstorable.year⟩

end Store

end Docket
