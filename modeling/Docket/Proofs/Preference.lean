import Mathlib.Data.List.Nodup
import Docket.Proofs.Selection

/-! # Which counter is preferred

Counters of one stream have years of their own, and so none of them ranks like another. The counter
that is selected for a year is then the preferred one: that of the year, else one that does not
reset, else one that does. In which order the counters are given makes no difference.
-/

namespace Docket.Issuing

variable {rank : Counter → Int} {counters : List Counter} {c d : Counter} {year : Int}

def Later (year : Int) (c : Counter) : Prop := ∃ y ∈ c.year, year < y

/-- The counter of a stream that ought to serve a year. -/
inductive Preferred (counters : List Counter) (year : Int) (c : Counter) : Prop
  /-- The counter of the year. -/
  | current (mem : c ∈ counters) (inYear : c.year = some year)
  /-- Else the counter without a year, if it does not reset. -/
  | continuous (mem : c ∈ counters) (noCurrent : ∀ d ∈ counters, d.year ≠ some year)
      (continues : c.settings.resets = false) (yearless : c.year = none)
  /-- Else, of the counters that do not reset, the one of the greatest year that is not later. -/
  | latestContinuous {y : Int} (mem : c ∈ counters) (noCurrent : ∀ d ∈ counters, d.year ≠ some year)
      (noYearless : ∀ d ∈ counters, d.settings.resets = false → d.year ≠ none)
      (continues : c.settings.resets = false) (inYear : c.year = some y) (reached : y ≤ year)
      (latest : ∀ d ∈ counters, d.settings.resets = false → ∀ z ∈ d.year, z ≤ year → z ≤ y)
  /-- Else, of the counters that reset, the one of the greatest year that is not later. -/
  | latestResetting {y : Int} (mem : c ∈ counters) (noCurrent : ∀ d ∈ counters, d.year ≠ some year)
      (noContinuous : ∀ d ∈ counters, d.settings.resets = false → Later year d)
      (resets : c.settings.resets = true) (inYear : c.year = some y) (reached : y ≤ year)
      (latest : ∀ d ∈ counters, d.settings.resets = true → ∀ z ∈ d.year, z ≤ year → z ≤ y)
  /-- Else the counter without a year. -/
  | resetting (mem : c ∈ counters) (noCurrent : ∀ d ∈ counters, d.year ≠ some year)
      (noContinuous : ∀ d ∈ counters, d.settings.resets = false → Later year d)
      (noYear : ∀ d ∈ counters, d.year ≠ none → Later year d)
      (resets : c.settings.resets = true) (yearless : c.year = none)

theorem isReached_eq_false_iff : isReached year c = false ↔ Later year c := by
  rw [← Bool.not_eq_true, isReached_iff, Later]
  simp only [not_forall, Int.not_le, exists_prop]

theorem mem_reached_iff {resets : Bool} :
    c ∈ reached year resets counters ↔
      c ∈ counters ∧ (∀ y ∈ c.year, y ≤ year) ∧ c.settings.resets = resets := by
  rw [mem_reached, isReached_iff]

theorem reached_eq_nil_iff {resets : Bool} :
    reached year resets counters = [] ↔
      ∀ d ∈ counters, d.settings.resets = resets → Later year d := by
  rw [List.eq_nil_iff_forall_not_mem]
  refine forall_congr' fun d => ?_
  rw [mem_reached, ← isReached_eq_false_iff, ← Bool.not_eq_true]
  tauto

theorem continuousRank_of_year {y : Int} (h : c.year = some y) : continuousRank c = y := by
  rw [continuousRank, h, Option.getD_some]

theorem continuousRank_of_none (h : c.year = none) : continuousRank c = int32Bound - 1 := by
  rw [continuousRank, h, Option.getD_none]

theorem resettingRank_of_year {y : Int} (h : c.year = some y) : resettingRank c = y := by
  rw [resettingRank, h, Option.getD_some]

theorem resettingRank_of_none (h : c.year = none) : resettingRank c = -int32Bound := by
  rw [resettingRank, h, Option.getD_none]

section Selected

variable (hbound : year < int32Bound)

include hbound

theorem lt_of_reached (hnone : ∀ d ∈ counters, d.year ≠ some year) (hd : d ∈ counters) {y : Int}
    (hy : d.year = some y) (hle : y ≤ year) : y < int32Bound - 1 := by
  have hne : y ≠ year := fun h => hnone d hd (hy.trans (congrArg some h))
  omega

theorem preferred_of_continuousRank (hnone : ∀ d ∈ counters, d.year ≠ some year)
    (hc : c ∈ reached year false counters)
    (hmax : ∀ d ∈ reached year false counters, continuousRank d ≤ continuousRank c) :
    Preferred counters year c := by
  obtain ⟨hmem, hreached, hcontinues⟩ := mem_reached_iff.mp hc
  cases hy : c.year with
  | none => exact .continuous hmem hnone hcontinues hy
  | some y =>
    rw [continuousRank_of_year hy] at hmax
    refine .latestContinuous hmem hnone (fun d hd hstays hdnone => ?_) hcontinues hy
      (hreached y hy) fun d hd hstays z hz hle => ?_
    · have hrank := hmax d (mem_reached_iff.mpr ⟨hd, by rw [hdnone]; nofun, hstays⟩)
      rw [continuousRank_of_none hdnone] at hrank
      exact absurd hrank (Int.not_le.mpr (lt_of_reached hbound hnone hmem hy (hreached y hy)))
    · have hrank := hmax d (mem_reached_iff.mpr
        ⟨hd, fun x hx => Option.some.inj (hz.symm.trans hx) ▸ hle, hstays⟩)
      rwa [continuousRank_of_year hz] at hrank

end Selected

theorem preferred_of_resettingRank (hyears : ∀ c ∈ counters, ∀ y ∈ c.year, 0 < y)
    (hnone : ∀ d ∈ counters, d.year ≠ some year)
    (hempty : ∀ d ∈ counters, d.settings.resets = false → Later year d)
    (hc : c ∈ reached year true counters)
    (hmax : ∀ d ∈ reached year true counters, resettingRank d ≤ resettingRank c) :
    Preferred counters year c := by
  obtain ⟨hmem, hreached, hresets⟩ := mem_reached_iff.mp hc
  -- The rank of each counter with a year that has been reached is that year.
  have hyear : ∀ d ∈ counters, d.settings.resets = true → ∀ z ∈ d.year, z ≤ year →
      z ≤ resettingRank c := by
    intro d hd hdresets z hz hle
    have hrank := hmax d (mem_reached_iff.mpr
      ⟨hd, fun x hx => Option.some.inj (hz.symm.trans hx) ▸ hle, hdresets⟩)
    rwa [resettingRank_of_year hz] at hrank
  cases hy : c.year with
  | some y =>
    rw [resettingRank_of_year hy] at hyear
    exact .latestResetting hmem hnone hempty hresets hy (hreached y hy) hyear
  | none =>
    rw [resettingRank_of_none hy] at hyear
    refine .resetting hmem hnone hempty (fun d hd hdyear => ?_) hresets hy
    obtain ⟨z, hz⟩ := Option.ne_none_iff_exists'.mp hdyear
    cases hdresets : d.settings.resets with
    | false => exact hempty d hd hdresets
    | true =>
      refine ⟨z, hz, Int.not_le.mp fun hle => ?_⟩
      have hpos := hyears d hd z hz
      have hlow := hyear d hd hdresets z hz hle
      simp only [int32Bound] at hlow
      omega

theorem preferred_of_select? (hyears : ∀ c ∈ counters, ∀ y ∈ c.year, 0 < y)
    (hbound : year < int32Bound) (h : select? counters year = some c) :
    Preferred counters year c := by
  rw [select?_eq, Option.or_eq_some_iff, Option.or_eq_some_iff] at h
  rcases h with h | ⟨hfind, h⟩
  · exact .current (List.mem_of_find?_eq_some h) (by simpa using List.find?_some h)
  have hnone : ∀ d ∈ counters, d.year ≠ some year := fun d hd => by
    simpa using List.find?_eq_none.mp hfind d hd
  rcases h with h | ⟨hempty, h⟩
  · exact preferred_of_continuousRank hbound hnone (mem_of_highest? h)
      fun d hd => rank_le_of_highest? h hd
  · exact preferred_of_resettingRank hyears hnone
      (reached_eq_nil_iff.mp (highest?_eq_none_iff.mp hempty)) (mem_of_highest? h)
      fun d hd => rank_le_of_highest? h hd

theorem not_later_of_le {y : Int} (hy : c.year = some y) (hle : y ≤ year) : ¬ Later year c := by
  rintro ⟨z, hz, hlt⟩
  obtain rfl : z = y := Option.some.inj (hz.symm.trans hy)
  exact Int.not_lt.mpr hle hlt

theorem not_later_of_none (h : c.year = none) : ¬ Later year c := by
  rintro ⟨z, hz, -⟩
  cases h.symm.trans hz

theorem Preferred.mem (h : Preferred counters year c) : c ∈ counters := by
  cases h <;> assumption

theorem Preferred.not_later (h : Preferred counters year c) : ¬ Later year c := by
  cases h with
  | current mem inYear => exact not_later_of_le inYear (Int.le_refl year)
  | continuous mem noCurrent continues yearless => exact not_later_of_none yearless
  | latestContinuous mem _ _ _ inYear reached => exact not_later_of_le inYear reached
  | latestResetting mem _ _ _ inYear reached => exact not_later_of_le inYear reached
  | resetting mem _ _ _ _ yearless => exact not_later_of_none yearless

/-- A counter of one kind rules out those of the kinds after it, and of each kind there is one year
at most. -/
theorem Preferred.year_eq (hc : Preferred counters year c) (hd : Preferred counters year d) :
    c.year = d.year := by
  have hcl := hc.not_later
  have hdl := hd.not_later
  cases hc with
  | latestContinuous hmem _ _ hstays hy hle hlatest =>
    cases hd with
    | latestContinuous hmem' _ _ hstays' hy' hle' hlatest' =>
      rw [hy, hy', Int.le_antisymm (hlatest' c hmem hstays _ hy hle)
        (hlatest d hmem' hstays' _ hy' hle')]
    | _ => grind
  | latestResetting hmem _ _ hresets hy hle hlatest =>
    cases hd with
    | latestResetting hmem' _ _ hresets' hy' hle' hlatest' =>
      rw [hy, hy', Int.le_antisymm (hlatest' c hmem hresets _ hy hle)
        (hlatest d hmem' hresets' _ hy' hle')]
    | _ => grind
  | _ => cases hd <;> grind

theorem Preferred.of_mem_iff {others : List Counter} (h : Preferred counters year c)
    (hothers : ∀ d, d ∈ others ↔ d ∈ counters) : Preferred others year c := by
  have hall : ∀ {p : Counter → Prop}, (∀ d ∈ counters, p d) → ∀ d ∈ others, p d :=
    fun hp d hd => hp d ((hothers d).mp hd)
  cases h with
  | current mem inYear => exact .current ((hothers c).mpr mem) inYear
  | continuous mem noCurrent continues yearless =>
    exact .continuous ((hothers c).mpr mem) (hall noCurrent) continues yearless
  | latestContinuous mem noCurrent noYearless continues inYear reached latest =>
    exact .latestContinuous ((hothers c).mpr mem) (hall noCurrent) (hall noYearless) continues
      inYear reached (hall latest)
  | latestResetting mem noCurrent noContinuous resets inYear reached latest =>
    exact .latestResetting ((hothers c).mpr mem) (hall noCurrent) (hall noContinuous) resets
      inYear reached (hall latest)
  | resetting mem noCurrent noContinuous noYear resets yearless =>
    exact .resetting ((hothers c).mpr mem) (hall noCurrent) (hall noContinuous) (hall noYear)
      resets yearless

theorem select?_eq_none_iff_later :
    select? counters year = none ↔ ∀ c ∈ counters, Later year c := by
  simp only [select?_eq_none_iff, isReached_eq_false_iff]

/-- Where counters are of years of their own, the preferred one is selected. -/
theorem Preferred.select?_eq (hdistinct : (counters.map Counter.year).Nodup)
    (hyears : ∀ c ∈ counters, ∀ y ∈ c.year, 0 < y) (hbound : year < int32Bound)
    (h : Preferred counters year c) : select? counters year = some c := by
  cases hselect : select? counters year with
  | none => exact absurd (select?_eq_none_iff_later.mp hselect c h.mem) h.not_later
  | some d =>
    have hd := preferred_of_select? hyears hbound hselect
    rw [List.inj_on_of_nodup_map hdistinct hd.mem h.mem (hd.year_eq h)]

theorem select?_perm (hdistinct : (counters.map Counter.year).Nodup)
    (hyears : ∀ c ∈ counters, ∀ y ∈ c.year, 0 < y) (hbound : year < int32Bound)
    {others : List Counter} (hperm : others.Perm counters) :
    select? others year = select? counters year := by
  cases hselect : select? counters year with
  | none =>
    rw [select?_eq_none_iff_later] at hselect ⊢
    exact fun c hc => hselect c (hperm.mem_iff.mp hc)
  | some c =>
    have hpreferred := preferred_of_select? hyears hbound hselect
    exact (hpreferred.of_mem_iff fun _ => hperm.mem_iff).select?_eq
      ((hperm.map Counter.year).nodup_iff.mpr hdistinct)
      (fun d hd => hyears d (hperm.mem_iff.mp hd)) hbound

/-- For every year, the preferred of a stream's counters is selected, in whatever order they are
given, and none exactly if all belong to later years. -/
theorem select?_follows_preference (hdistinct : (counters.map Counter.year).Nodup)
    (hyears : ∀ c ∈ counters, ∀ y ∈ c.year, 0 < y) (hbound : year < int32Bound) :
    (∀ c, select? counters year = some c ↔ Preferred counters year c) ∧
      (select? counters year = none ↔ ∀ c ∈ counters, Later year c) ∧
      ∀ others : List Counter, others.Perm counters →
        select? others year = select? counters year := by
  refine ⟨fun c => ⟨?_, ?_⟩, select?_eq_none_iff_later, fun others hperm => ?_⟩
  · exact preferred_of_select? hyears hbound
  · exact Preferred.select?_eq hdistinct hyears hbound
  · exact select?_perm hdistinct hyears hbound hperm

def yearlyCounter (year : Option Int) : Counter :=
  { id := default
    tenant := default
    documentType := default
    series := ""
    year := year
    value := 7
    settings := {}
    created := default
    updated := default
    retired := none }

theorem select?_follows_preference_yearly :
    Preferred ([some 2026, none, some 2024].map yearlyCounter) 2025 (yearlyCounter (some 2024)) ∧
      select? ([none, some 2024, some 2026].map yearlyCounter) 2025
        = some (yearlyCounter (some 2024)) := by
  have hselect : select? ([some 2026, none, some 2024].map yearlyCounter) 2025
      = some (yearlyCounter (some 2024)) := by decide
  have hdistinct : (([some 2026, none, some 2024].map yearlyCounter).map Counter.year).Nodup := by
    decide
  obtain ⟨hpreferred, -, hperm⟩ := select?_follows_preference hdistinct (by decide)
    (by decide : (2025 : Int) < int32Bound)
  exact ⟨(hpreferred _).mp hselect, (hperm _ (List.Perm.map _ (by decide))).trans hselect⟩

end Docket.Issuing
