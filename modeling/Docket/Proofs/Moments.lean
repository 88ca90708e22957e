import Docket.Proofs.Timestamps

/-! # Reading written times

A day has a number, and the number gives the day back. A time in the years of four digits is read
back from its written form as it was, with all digits of its fraction.
-/

namespace Docket.Time

open Docket.Text

namespace Date

theorem isLeap_iff {year : Int} :
    isLeap year = true ↔ year % 4 = 0 ∧ (year % 100 ≠ 0 ∨ year % 400 = 0) := by
  simp [isLeap]

/-- A year, counted from March, has more than 365 days only if it ends in a leap day. -/
theorem leap_of_daysBefore {p : Int} (hp : 0 ≤ p) (hp' : p < 146097)
    (h : p - daysBefore (yearsOver p) = 365) :
    (yearsOver p + 1) % 4 = 0 ∧ ((yearsOver p + 1) % 100 ≠ 0 ∨ yearsOver p = 399) := by
  have hcentury := yearsOver_div_hundred hp hp'
  obtain ⟨y, hy⟩ : ∃ y, yearsOver p = y := ⟨_, rfl⟩
  rw [hy] at h hcentury ⊢
  unfold daysBefore at h
  unfold yearsOver at hy
  have hleap : p / 1460 = y / 4 + 1 := by omega
  have hfourth : y % 4 = 3 := by omega
  refine ⟨by omega, ?_⟩
  by_contra hlast
  have hcases : y = 99 ∨ y = 199 ∨ y = 299 := by omega
  rcases hcases with rfl | rfl | rfl <;> omega

theorem leap_of_daysOver {n : Int} (h : daysOver n = 365) : isLeap (marchYear n + 1) = true := by
  have hleap := leap_of_daysBefore (p := (n + 719468) % 146097) (by omega) (by omega) h
  rw [isLeap_iff]
  unfold marchYear
  omega

theorem valid_ofDayNumber (n : Int) : (ofDayNumber n).Valid := by
  have hbounds := daysOver_bounds n
  have hleap : isLeap (marchYear n + 1) = false → daysOver n ≠ 365 := fun h hlast =>
    Bool.false_ne_true (h.symm.trans (leap_of_daysOver hlast))
  rw [ofDayNumber_eq]
  unfold Valid daysInMonth
  dsimp only
  split
  · dsimp only
    rw [if_neg (by omega)]
    split <;> omega
  · dsimp only
    cases hyear : isLeap (marchYear n + 1) with
    | true =>
      simp only [if_true]
      split_ifs <;> omega
    | false =>
      have hlast := hleap hyear
      simp only [Bool.false_eq_true, if_false]
      split_ifs <;> omega

theorem dayNumber_ofDayNumber (n : Int) : (ofDayNumber n).dayNumber = n := by
  have hbounds := daysOver_bounds n
  have hyears := yearsOver_lt_400 (p := (n + 719468) % 146097) (by omega) (by omega)
  have hyear : 365 * marchYear n + marchYear n / 4 - marchYear n / 100 + marchYear n / 400
      + daysOver n = n + 719468 := by
    unfold marchYear daysOver daysBefore
    omega
  rw [ofDayNumber_eq]
  unfold dayNumber
  dsimp only
  split
  · dsimp only
    rw [if_neg (by omega), if_neg (by omega)]
    omega
  · dsimp only
    rw [if_pos (by omega), if_pos (by omega)]
    omega

end Date

section Fields

variable {m n w : Nat} {c : Char} {cs rest : List Char}

theorem isBlankChar_of_isDigit (h : c.isDigit = true) : isBlankChar c = false := by
  simp only [Char.isDigit, Bool.and_eq_true, decide_eq_true_eq] at h
  have hlow : 48 ≤ c.toNat := h.1
  have hhigh : c.toNat ≤ 57 := h.2
  rw [isBlankChar, List.any_eq_false]
  intro range hrange
  simp only [blankRanges, List.mem_cons, List.not_mem_nil, or_false] at hrange
  rcases hrange with rfl | rfl | rfl | rfl | rfl | rfl | rfl | rfl | rfl | rfl <;>
    simp only [decide_eq_true_eq] <;> omega

theorem trimStart_cons (h : isBlankChar c = false) : trimStart (c :: cs) = c :: cs :=
  List.dropWhile_cons_of_neg (by rw [h]; exact Bool.false_ne_true)

theorem trimStart_zeroFilled (w n : Nat) (rest : List Char) :
    trimStart (zeroFilled w n ++ rest) = zeroFilled w n ++ rest := by
  obtain ⟨c, cs, hchars, hdigit⟩ := exists_zeroFilled_eq_cons w n
  rw [hchars]
  exact trimStart_cons (isBlankChar_of_isDigit hdigit)

theorem valueOf_zeroFilled (w n : Nat) : valueOf (zeroFilled w n) = n := by
  rw [zeroFilled, valueOf_replicate_append, valueOf_digits]

theorem leadingDigits_append {limit : Nat} {ds : List Char} (hds : ∀ c ∈ ds, c.isDigit = true)
    (hlimit : ds.length ≤ limit)
    (hrest : ds.length = limit ∨ ∀ c ∈ rest.head?, c.isDigit = false) :
    leadingDigits limit (ds ++ rest) = (ds, rest) := by
  have hends : ∀ c ∈ (rest.take (limit - ds.length)).head?, c.isDigit = false := by
    rw [List.head?_take]
    intro c hc
    split at hc
    · cases hc
    · exact (hrest.resolve_left (by omega)) c hc
  rw [leadingDigits, List.take_append, List.take_of_length_le hlimit,
    takeWhile_isDigit_append hds hends, List.drop_left]

theorem leadingDigits_zeroFilled (hw : 0 < w) (hn : n < 10 ^ w) :
    leadingDigits w (zeroFilled w n ++ rest) = (zeroFilled w n, rest) := by
  have hlength := length_zeroFilled hw hn
  exact leadingDigits_append (fun _ hc => isDigit_of_mem_zeroFilled hc) hlength.le (Or.inl hlength)

theorem number?_zeroFilled (hw : 0 < w) (hn : n < 10 ^ w) :
    number? w (zeroFilled w n ++ rest) = some (n, rest) := by
  obtain ⟨c, cs, hchars, -⟩ := exists_zeroFilled_eq_cons w n
  rw [number?, leadingDigits_zeroFilled hw hn]
  have hvalue := valueOf_zeroFilled w n
  rw [hchars] at hvalue ⊢
  exact congrArg (fun n => some (n, rest)) hvalue

theorem field?_zeroFilled (hn : n < 100) : field? (zeroFilled 2 n ++ rest) = some (n, rest) := by
  rw [field?, trimStart_zeroFilled, number?_zeroFilled (by decide) hn]

theorem afterSeparator?_cons (h : isBlankChar c = false) :
    afterSeparator? c (c :: rest) = some rest := by
  rw [afterSeparator?, trimStart_cons h]
  exact if_pos rfl

theorem year?_zeroFilled (hn : n < 10000) :
    year? (zeroFilled 4 n ++ rest) = some ((n : Int), rest) := by
  obtain ⟨c, cs, hchars, hdigit⟩ := exists_zeroFilled_eq_cons 4 n
  have hnumber : number? 4 (zeroFilled 4 n ++ rest) = some (n, rest) :=
    number?_zeroFilled (by decide) hn
  rw [year?, trimStart_zeroFilled]
  rw [hchars] at hnumber ⊢
  split
  · next heq =>
    rw [(List.cons.inj heq).1] at hdigit
    cases hdigit
  · next heq =>
    rw [(List.cons.inj heq).1] at hdigit
    cases hdigit
  · rw [hnumber]
    rfl

theorem date?_chars {d : Date} (rest : List Char) (hyear : 0 ≤ d.year ∧ d.year ≤ 9999)
    (hvalid : d.Valid) :
    date? (yearChars d.year ++ '-' :: (zeroFilled 2 d.month ++ '-' :: (zeroFilled 2 d.day ++ rest)))
      = some (d, rest) := by
  obtain ⟨hmonth, hmonth', hday, hday'⟩ := hvalid
  have hlength : daysInMonth d.year d.month ≤ 31 := by
    unfold daysInMonth
    split_ifs <;> decide
  have hcovered : isCovered d.year = true := decide_eq_true (by omega)
  have hnat : (d.year.natAbs : Int) = d.year := Int.natAbs_of_nonneg hyear.1
  rw [yearChars_of_four_digits hyear.1 hyear.2, date?, year?_zeroFilled (by omega), hnat]
  simp only [Option.bind_eq_bind, Option.bind_some,
    afterSeparator?_cons (by decide : isBlankChar '-' = false),
    field?_zeroFilled (by omega : d.month < 100), field?_zeroFilled (by omega : d.day < 100)]
  exact if_pos ⟨⟨hmonth, hmonth', hday, hday'⟩, hcovered⟩

theorem fraction?_fractionChars {f : Nat} (hf : f < 1000000000) :
    fraction? (fractionChars f ++ ['Z']) = some (f, ['Z']) := by
  rcases Nat.eq_zero_or_pos f with rfl | hpos
  · rfl
  · obtain ⟨i, m, hi, hi', hm, hvalue, hchars⟩ := fractionChars_eq hpos hf
    have hlength := length_zeroFilled hi hm
    have hdigits : leadingDigits 9 (zeroFilled i m ++ ['Z']) = (zeroFilled i m, ['Z']) :=
      leadingDigits_append (fun _ hc => isDigit_of_mem_zeroFilled hc) (by omega)
        (Or.inr fun _ hc => Option.some.inj hc ▸ rfl)
    have hnumber := valueOf_zeroFilled i m
    obtain ⟨c, cs, hcons, -⟩ := exists_zeroFilled_eq_cons i m
    rw [hchars, List.cons_append, fraction?, hdigits]
    rw [hcons] at hnumber hlength ⊢
    simp only [hnumber, hlength]
    rw [hvalue]
    rfl

theorem timeOfDay?_chars {hour minute second nano : Nat} (hhour : hour < 24) (hminute : minute < 60)
    (hsecond : second < 60) (hnano : nano < 1000000000) :
    timeOfDay? (zeroFilled 2 hour ++ ':' :: (zeroFilled 2 minute ++ ':' :: (zeroFilled 2 second
      ++ (fractionChars nano ++ ['Z']))))
      = some ((3600 * hour + 60 * minute + second, nano), ['Z']) := by
  rw [timeOfDay?]
  simp only [Option.bind_eq_bind, Option.bind_some,
    afterSeparator?_cons (by decide : isBlankChar ':' = false),
    field?_zeroFilled (by omega : hour < 100), field?_zeroFilled (by omega : minute < 100),
    field?_zeroFilled (by omega : second < 100), fraction?_fractionChars hnano]
  exact if_pos ⟨hhour, hminute, hsecond⟩

end Fields

namespace Instant

variable {t : Instant}

/-- A time in the years of four digits, apart from leap seconds. -/
structure Plain (t : Instant) : Prop where
  year : 0 ≤ t.year ∧ t.year ≤ 9999
  nano : t.nano < 1000000000

instance (t : Instant) : Decidable t.Plain :=
  decidable_of_iff ((0 ≤ t.year ∧ t.year ≤ 9999) ∧ t.nano < 1000000000)
    ⟨fun ⟨year, nano⟩ => ⟨year, nano⟩, fun h => ⟨h.year, h.nano⟩⟩

theorem Plain.ofText?_text (h : t.Plain) : ofText? t.text = some t := by
  have hday := date?_chars ('T' :: (zeroFilled 2 (t.secondOfDay / 3600) ++
    ':' :: (zeroFilled 2 (t.secondOfDay / 60 % 60) ++ ':' :: (zeroFilled 2 (t.secondOfDay % 60)
      ++ (fractionChars t.nano ++ ['Z']))))) h.year (Date.valid_ofDayNumber _)
  have hseconds : t.secondOfDay < 86400 := by
    unfold secondOfDay
    omega
  have htime := timeOfDay?_chars (by omega : t.secondOfDay / 3600 < 24)
    (by omega : t.secondOfDay / 60 % 60 < 60) (by omega : t.secondOfDay % 60 < 60) h.nano
  have hchars : t.text.toList = yearChars t.date.year ++ '-' :: (zeroFilled 2 t.date.month ++
      '-' :: (zeroFilled 2 t.date.day ++ 'T' :: (zeroFilled 2 (t.secondOfDay / 3600) ++
        ':' :: (zeroFilled 2 (t.secondOfDay / 60 % 60) ++ ':' :: (zeroFilled 2 (t.secondOfDay % 60)
          ++ (fractionChars t.nano ++ ['Z'])))))) := by
    simp [text, chars, universalChars, Nat.div_eq_of_lt h.nano, Nat.mod_eq_of_lt h.nano]
  have hoffset : offset? ['Z'] = some (0, []) := rfl
  have hnano : trimStart [] = [] ∧ t.nano < 2000000000 := ⟨rfl, t.nano_lt⟩
  have hsame : 86400 * t.date.dayNumber + ((3600 * (t.secondOfDay / 3600) +
      60 * (t.secondOfDay / 60 % 60) + t.secondOfDay % 60 : Nat) : Int) - 0 = t.second := by
    have hnumber : t.date.dayNumber = t.second / 86400 := Date.dayNumber_ofDayNumber _
    have hsplit : 3600 * (t.secondOfDay / 3600) + 60 * (t.secondOfDay / 60 % 60)
        + t.secondOfDay % 60 = t.secondOfDay := by
      omega
    rw [hnumber, hsplit, secondOfDay]
    omega
  have hcovered : isCovered t.year = true := by
    have hyear := h.year
    exact decide_eq_true (by omega)
  rw [ofText?, hchars, ofChars?, hday]
  simp only [Option.bind_eq_bind, Option.bind_some, true_or, if_true, htime, hoffset, dif_pos hnano,
    hsame, hcovered]

end Instant

end Docket.Time
