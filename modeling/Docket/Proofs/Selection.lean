import Mathlib.Data.List.Induction
import Docket.Issuing.Allocation

/-! # Selection of counters

A counter that is selected for a year is one of the stream's; it belongs to the year, or none does
and it belongs to no later year. Nothing is selected exactly if all counters belong to later years.
What does not touch years and resets does not touch selection.
-/

namespace Docket.Issuing

variable {rank : Counter → Int} {counters : List Counter} {c : Counter} {year : Int}

theorem highest?_append_singleton (rank : Counter → Int) (counters : List Counter) (c : Counter) :
    highest? rank (counters ++ [c]) =
      match highest? rank counters with
      | none => some c
      | some b => if rank b ≤ rank c then some c else some b := by
  unfold highest?
  exact List.foldl_append

theorem highest?_eq_none_iff : highest? rank counters = none ↔ counters = [] := by
  cases counters using List.reverseRecOn with
  | nil => simp [highest?]
  | append_singleton counters c =>
    rw [highest?_append_singleton]
    simp only [List.append_eq_nil_iff, List.cons_ne_self, and_false, iff_false]
    split
    · simp
    · split <;> simp

theorem mem_of_highest? (h : highest? rank counters = some c) : c ∈ counters := by
  induction counters using List.reverseRecOn with
  | nil => simp [highest?] at h
  | append_singleton counters d ih =>
    rw [highest?_append_singleton] at h
    split at h
    · simp_all
    · next b hb =>
      split at h
      · simp_all
      · exact List.mem_append_left _ (ih (hb.trans h))

theorem rank_le_of_highest? (h : highest? rank counters = some c) {d : Counter}
    (hd : d ∈ counters) : rank d ≤ rank c := by
  induction counters using List.reverseRecOn generalizing c with
  | nil => exact absurd hd List.not_mem_nil
  | append_singleton counters e ih =>
    rw [highest?_append_singleton] at h
    cases hbest : highest? rank counters with
    | none =>
      obtain rfl := highest?_eq_none_iff.mp hbest
      rw [hbest] at h
      obtain rfl := Option.some.inj h
      obtain rfl := List.mem_singleton.mp hd
      exact Int.le_refl _
    | some b =>
      simp only [hbest] at h
      rcases List.mem_append.mp hd with hd | hd
      · have hle := ih hbest hd
        split at h
        · next hbe => exact Option.some.inj h ▸ Int.le_trans hle hbe
        · exact Option.some.inj h ▸ hle
      · obtain rfl := List.mem_singleton.mp hd
        split at h
        · exact Option.some.inj h ▸ Int.le_refl _
        · next hbe => exact Option.some.inj h ▸ Int.le_of_lt (Int.not_le.mp hbe)

theorem highest?_map {f : Counter → Counter} (hf : ∀ d, rank (f d) = rank d) :
    highest? rank (counters.map f) = (highest? rank counters).map f := by
  induction counters using List.reverseRecOn with
  | nil => rfl
  | append_singleton counters d ih =>
    rw [List.map_append, List.map_singleton, highest?_append_singleton, ih,
      highest?_append_singleton]
    cases highest? rank counters with
    | none => rfl
    | some b =>
      simp only [Option.map_some, hf]
      split <;> rfl

theorem isReached_iff : isReached year c = true ↔ ∀ y ∈ c.year, y ≤ year := by
  cases h : c.year with
  | none => simp [isReached, h]
  | some y => simp [isReached, h]

theorem isReached_of_year (h : c.year = some year) : isReached year c = true := by
  simp [isReached, h]

/-- Counters that are not of a later year, with those that reset or with the others. -/
def reached (year : Int) (resets : Bool) (counters : List Counter) : List Counter :=
  (counters.filter (isReached year)).filter fun c => c.settings.resets == resets

theorem mem_reached {resets : Bool} :
    c ∈ reached year resets counters ↔
      c ∈ counters ∧ isReached year c = true ∧ c.settings.resets = resets := by
  simp only [reached, List.mem_filter, beq_iff_eq, and_assoc]

theorem select?_eq (counters : List Counter) (year : Int) :
    select? counters year =
      (counters.find? fun c => c.year == some year).or
        ((highest? continuousRank (reached year false counters)).or
          (highest? resettingRank (reached year true counters))) := by
  simp only [select?, reached, beq_true, beq_false]
  cases counters.find? fun c => c.year == some year with
  | some d => rfl
  | none =>
    cases highest? continuousRank
      ((counters.filter (isReached year)).filter fun c => !c.settings.resets) <;> rfl

theorem mem_of_select? (h : select? counters year = some c) : c ∈ counters := by
  rw [select?_eq, Option.or_eq_some_iff, Option.or_eq_some_iff] at h
  rcases h with h | ⟨_, h | ⟨_, h⟩⟩
  · exact List.mem_of_find?_eq_some h
  · exact (mem_reached.mp (mem_of_highest? h)).1
  · exact (mem_reached.mp (mem_of_highest? h)).1

/-- Either the counter of the year was selected, or there is none and a counter of no later year
was. -/
theorem year_of_select? (h : select? counters year = some c) :
    c.year = some year ∨
      (∀ d ∈ counters, d.year ≠ some year) ∧ isReached year c = true := by
  rw [select?_eq, Option.or_eq_some_iff, Option.or_eq_some_iff, List.find?_eq_none] at h
  rcases h with h | ⟨hn, h⟩
  · exact Or.inl (by simpa using List.find?_some h)
  · refine Or.inr ⟨fun d hd => by simpa using hn d hd, ?_⟩
    rcases h with h | ⟨_, h⟩
    · exact (mem_reached.mp (mem_of_highest? h)).2.1
    · exact (mem_reached.mp (mem_of_highest? h)).2.1

theorem select?_eq_none_iff :
    select? counters year = none ↔ ∀ c ∈ counters, isReached year c = false := by
  rw [select?_eq, Option.or_eq_none_iff, Option.or_eq_none_iff, highest?_eq_none_iff,
    highest?_eq_none_iff, List.find?_eq_none]
  constructor
  · rintro ⟨_, hc, hr⟩ d hd
    by_contra h
    have h : isReached year d = true := by simpa using h
    cases hs : d.settings.resets with
    | false => exact List.ne_nil_of_mem (mem_reached.mpr ⟨hd, h, hs⟩) hc
    | true => exact List.ne_nil_of_mem (mem_reached.mpr ⟨hd, h, hs⟩) hr
  · intro h
    have hempty : ∀ resets d, d ∉ reached year resets counters := fun resets d hd => by
      obtain ⟨hd, hr, _⟩ := mem_reached.mp hd
      simp [h d hd] at hr
    refine ⟨fun d hd hy => ?_, ?_, ?_⟩
    · have hyear : d.year = some year := by simpa using hy
      have hreached := isReached_of_year hyear
      simp [h d hd] at hreached
    · exact List.eq_nil_iff_forall_not_mem.mpr (hempty false)
    · exact List.eq_nil_iff_forall_not_mem.mpr (hempty true)

theorem year_lt_of_select? (h : select? counters year = some c) (hyear : c.year ≠ some year)
    {y : Int} (hy : c.year = some y) : y < year := by
  have hreached := ((year_of_select? h).resolve_left hyear).2
  have hle : y ≤ year := isReached_iff.mp hreached y hy
  have hne : y ≠ year := fun h => hyear (h ▸ hy)
  omega

/-- Where all counters reset, one that moves on to a year is the latest that has been reached. -/
theorem resettingRank_le_of_select? (hresets : ∀ d ∈ counters, d.settings.resets = true)
    (h : select? counters year = some c) (hyear : c.year ≠ some year) {d : Counter}
    (hd : d ∈ counters) (hreached : isReached year d = true) :
    resettingRank d ≤ resettingRank c := by
  rw [select?_eq, Option.or_eq_some_iff, Option.or_eq_some_iff] at h
  rcases h with h | ⟨-, h | ⟨-, h⟩⟩
  · exact absurd (by simpa using List.find?_some h) hyear
  · obtain ⟨hc, -, hcontinuous⟩ := mem_reached.mp (mem_of_highest? h)
    cases (hresets c hc).symm.trans hcontinuous
  · exact rank_le_of_highest? h (mem_reached.mpr ⟨hd, hreached, hresets d hd⟩)

theorem year_le_of_select? (hresets : ∀ d ∈ counters, d.settings.resets = true)
    (h : select? counters year = some c) (hyear : c.year ≠ some year) {y z : Int}
    (hy : c.year = some y) {d : Counter} (hd : d ∈ counters) (hz : d.year = some z)
    (hlt : z < year) : z ≤ y := by
  have hreached : isReached year d = true := isReached_iff.mpr fun x hx => by
    obtain rfl : z = x := Option.some.inj (hz.symm.trans hx)
    exact Int.le_of_lt hlt
  have hrank := resettingRank_le_of_select? hresets h hyear hd hreached
  rwa [resettingRank, resettingRank, hy, hz] at hrank

theorem select?_of_only (hc : c ∈ counters) (hy : c.year = some year)
    (hu : ∀ d ∈ counters, d.year = some year → d = c) : select? counters year = some c := by
  rw [select?_eq, Option.or_eq_some_iff]
  left
  cases h : counters.find? (fun d => d.year == some year) with
  | none => simpa [hy] using List.find?_eq_none.mp h c hc
  | some d =>
    have hd := List.find?_some h
    rw [hu d (List.mem_of_find?_eq_some h) (by simpa using hd)]

theorem select?_map {f : Counter → Counter} (hy : ∀ d, (f d).year = d.year)
    (hr : ∀ d, (f d).settings.resets = d.settings.resets) :
    select? (counters.map f) year = (select? counters year).map f := by
  have hreached : ∀ resets, reached year resets (counters.map f)
      = (reached year resets counters).map f := fun resets => by
    have : isReached year ∘ f = isReached year := funext fun d => by
      simp only [Function.comp_apply, isReached, hy]
    simp only [reached, List.filter_map, this, Function.comp_def, hr]
  have hcont : ∀ d, continuousRank (f d) = continuousRank d := fun d => by
    simp only [continuousRank, hy]
  have hreset : ∀ d, resettingRank (f d) = resettingRank d := fun d => by
    simp only [resettingRank, hy]
  simp only [select?_eq, hreached, highest?_map hcont, highest?_map hreset, List.find?_map,
    Function.comp_def, hy, Option.map_or]

end Docket.Issuing
