import Docket.Time.Instant

/-! # The order of dates

Days follow one another in the calendar as their numbers do: by year, then by month, then by day.
Within a year that is counted from March the months and days go by the days that are over, and so
do the years within a period of 400.
-/

namespace Docket.Time.Date

/-- The order of dates by year, then by month, then by day. -/
def Before (a b : Date) : Prop :=
  a.year < b.year ∨ a.year = b.year ∧ (a.month < b.month ∨ a.month = b.month ∧ a.day < b.day)

/-- The years, counted from March, that are over when so many days of a period are. -/
def yearsOver (days : Int) : Int := (days - days / 1460 + days / 36524 - days / 146096) / 365

/-- The days of a period that are over when so many years are. -/
def daysBefore (years : Int) : Int := 365 * years + years / 4 - years / 100

section Period

variable {p q : Int}

theorem yearsOver_mono (h : p < q) (hp : 0 ≤ p) (hq : q < 146097) : yearsOver p ≤ yearsOver q := by
  unfold yearsOver
  omega

theorem yearsOver_lt_400 (hp : 0 ≤ p) (hp' : p < 146097) :
    0 ≤ yearsOver p ∧ yearsOver p < 400 := by
  unfold yearsOver
  omega

theorem yearsOver_div_hundred (hp : 0 ≤ p) (hp' : p < 146097) :
    yearsOver p / 100 = p / 36524 - p / 146096 := by
  unfold yearsOver
  have hcases : p / 36524 = 0 ∨ p / 36524 = 1 ∨ p / 36524 = 2 ∨ p / 36524 = 3 ∨
      p / 36524 = 4 := by
    omega
  rcases hcases with h | h | h | h | h <;> omega

theorem daysBefore_yearsOver (hp : 0 ≤ p) (hp' : p < 146097) :
    daysBefore (yearsOver p) ≤ p ∧ p ≤ daysBefore (yearsOver p) + 365 := by
  have hcentury := yearsOver_div_hundred hp hp'
  obtain ⟨y, hy⟩ : ∃ y, yearsOver p = y := ⟨_, rfl⟩
  have hyears := hy
  unfold yearsOver at hyears
  rw [hy] at hcentury ⊢
  -- of the leap days up to `p`, all are over but that of the year itself
  have hleap : y / 4 ≤ p / 1460 ∧ p / 1460 ≤ y / 4 + 1 := by omega
  unfold daysBefore
  omega

end Period

/-- The year of a day, counted from March. -/
def marchYear (n : Int) : Int :=
  400 * ((n + 719468) / 146097) + yearsOver ((n + 719468) % 146097)

/-- The days of that year that are over. -/
def daysOver (n : Int) : Int :=
  (n + 719468) % 146097 - daysBefore (yearsOver ((n + 719468) % 146097))

theorem daysOver_bounds (n : Int) : 0 ≤ daysOver n ∧ daysOver n ≤ 365 := by
  have h := daysBefore_yearsOver (p := (n + 719468) % 146097) (by omega) (by omega)
  unfold daysOver
  omega

theorem march_lt {m n : Int} (h : m < n) :
    marchYear m < marchYear n ∨ marchYear m = marchYear n ∧ daysOver m < daysOver n := by
  have hm := yearsOver_lt_400 (p := (m + 719468) % 146097) (by omega) (by omega)
  have hn := yearsOver_lt_400 (p := (n + 719468) % 146097) (by omega) (by omega)
  unfold marchYear daysOver
  by_cases hperiod : (m + 719468) / 146097 = (n + 719468) / 146097
  · have hlt : (m + 719468) % 146097 < (n + 719468) % 146097 := by omega
    have hle := yearsOver_mono hlt (by omega) (by omega)
    by_cases heq : yearsOver ((m + 719468) % 146097) = yearsOver ((n + 719468) % 146097)
    · rw [heq]
      omega
    · omega
  · omega

theorem ofDayNumber_eq (n : Int) :
    ofDayNumber n =
      let month := (5 * daysOver n + 2) / 153
      let day := daysOver n - (153 * month + 2) / 5 + 1
      if month < 10 then ⟨marchYear n, (month + 3).toNat, day.toNat⟩
      else ⟨marchYear n + 1, (month - 9).toNat, day.toNat⟩ := rfl

theorem ofDayNumber_bounds (n : Int) :
    (ofDayNumber n).month ≤ 12 ∧ (ofDayNumber n).day ≤ 31 := by
  have h := daysOver_bounds n
  rw [ofDayNumber_eq]
  dsimp only
  split <;> dsimp only <;> omega

theorem before_of_lt {m n : Int} (h : m < n) : (ofDayNumber m).Before (ofDayNumber n) := by
  have hmarch := march_lt h
  have hm := daysOver_bounds m
  have hn := daysOver_bounds n
  rw [ofDayNumber_eq, ofDayNumber_eq]
  unfold Before
  dsimp only
  split <;> split <;> dsimp only <;> omega

end Docket.Time.Date

namespace Docket.Time.Instant

/-- Clocks show years from 1970 on that are written. -/
theorem Readable.year_bounds {t : Instant} (h : t.Readable) : 1970 ≤ t.year ∧ t.year ≤ 262142 := by
  obtain ⟨hsecond, hcovered⟩ := h
  refine ⟨?_, (of_decide_eq_true hcovered).2⟩
  have hday : 0 ≤ t.second / 86400 := Int.ediv_nonneg hsecond (by decide)
  rcases Int.lt_or_eq_of_le hday with hday | hday
  · have hstart : (Date.ofDayNumber 0).year = 1970 := rfl
    have hyear : t.year = (Date.ofDayNumber (t.second / 86400)).year := rfl
    rcases Date.before_of_lt hday with hbefore | ⟨hbefore, -⟩ <;> omega
  · exact Int.le_of_eq (congrArg (fun day => (Date.ofDayNumber day).year) hday)

end Docket.Time.Instant
