import Mathlib.Data.List.Basic
import Mathlib.Data.List.Lex
import Mathlib.Data.String.Basic
import Docket.Time.Written
import Docket.Proofs.Dates
import Docket.Proofs.Layout

/-! # The order of stored times

Times are stored as texts, and compared as texts. As long as their years have four digits and no
sign, that is the order in time: fields of fixed width are compared one after another, and a
fraction is followed by a sign that is less than any digit. A year with a sign is less than one
without.
-/

namespace Docket

namespace Text

variable {i j k m n w : Nat} {us vs xs ys : List Char}

theorem append_lt_append (h : xs < ys) (hlength : xs.length = ys.length) :
    xs ++ us < ys ++ vs := by
  induction h with
  | nil => cases hlength
  | rel hlt => exact List.Lex.rel hlt
  | cons _ ih => exact List.Lex.cons (ih (Nat.succ.inj hlength))

theorem digitChar_lt : ∀ n < 10, ∀ m < n, Nat.digitChar m < Nat.digitChar n := by decide

theorem digits_of_lt (h : n < 10) : digits n = [Nat.digitChar n] := Nat.toDigits_of_lt_base h

theorem zeroFilled_one (h : n < 10) : zeroFilled 1 n = [Nat.digitChar n] := by
  rw [zeroFilled, digits_of_lt h]
  rfl

theorem zeroFilled_succ (hw : 0 < w) (n : Nat) :
    zeroFilled (w + 1) n = zeroFilled w (n / 10) ++ [Nat.digitChar (n % 10)] := by
  unfold zeroFilled
  by_cases hn : n < 10
  · obtain ⟨v, rfl⟩ := Nat.exists_eq_succ_of_ne_zero hw.ne'
    rw [digits_of_lt hn, Nat.div_eq_of_lt hn, Nat.mod_eq_of_lt hn, digits_of_lt (by decide)]
    simp [List.replicate_succ', Nat.digitChar]
  · simp [digits_of_ge (Nat.le_of_not_lt hn)]

theorem length_zeroFilled (hw : 0 < w) (h : n < 10 ^ w) : (zeroFilled w n).length = w := by
  have hle : (digits n).length ≤ w := (Nat.length_toDigits_le_iff (by decide) hw).mpr h
  simp only [zeroFilled, List.length_append, List.length_replicate]
  omega

theorem zeroFilled_lt (hw : 0 < w) (hn : n < 10 ^ w) (h : m < n) :
    zeroFilled w m < zeroFilled w n := by
  induction w, hw using Nat.le_induction generalizing m n with
  | base =>
    rw [zeroFilled_one (by omega), zeroFilled_one hn]
    exact List.Lex.rel (digitChar_lt n hn m h)
  | succ w hw ih =>
    rw [zeroFilled_succ hw, zeroFilled_succ hw]
    rw [Nat.pow_succ] at hn
    rcases Nat.lt_or_ge (m / 10) (n / 10) with hlt | hge
    · apply append_lt_append (ih (by omega) hlt)
      rw [length_zeroFilled hw (by omega), length_zeroFilled hw (by omega)]
    · rw [show m / 10 = n / 10 by omega]
      exact List.append_left_lt (List.Lex.rel (digitChar_lt _ (by omega) _ (by omega)))

theorem zeroFilled_append_lt (hw : 0 < w) (hm : m < 10 ^ w) (hn : n < 10 ^ w)
    (h : m < n ∨ m = n ∧ us < vs) : zeroFilled w m ++ us < zeroFilled w n ++ vs := by
  rcases h with hlt | ⟨rfl, htail⟩
  · apply append_lt_append (zeroFilled_lt hw hn hlt)
    rw [length_zeroFilled hw hm, length_zeroFilled hw hn]
  · exact List.append_left_lt htail

theorem field_lt {c : Char} (hm : m < 100) (hn : n < 100) (h : m < n ∨ m = n ∧ us < vs) :
    zeroFilled 2 m ++ c :: us < zeroFilled 2 n ++ c :: vs :=
  zeroFilled_append_lt (by decide) hm hn (h.imp_right (And.imp_right List.Lex.cons))

theorem zeroFilled_split (hi : 0 < i) (hk : 0 < k) (n : Nat) :
    zeroFilled (i + k) n = zeroFilled i (n / 10 ^ k) ++ zeroFilled k (n % 10 ^ k) := by
  induction k, hk using Nat.le_induction generalizing n with
  | base =>
    rw [zeroFilled_succ hi, Nat.pow_one, zeroFilled_one (Nat.mod_lt n (by decide))]
  | succ k hk ih =>
    have hhead : n / 10 ^ (k + 1) = n / 10 / 10 ^ k := by
      rw [Nat.div_div_eq_div_mul, Nat.pow_succ, Nat.mul_comm]
    have hrest : n % 10 ^ (k + 1) / 10 = n / 10 % 10 ^ k := by
      rw [Nat.pow_succ, Nat.mul_comm, Nat.mod_mul_right_div_self]
    have hlast : n % 10 ^ (k + 1) % 10 = n % 10 := by
      rw [Nat.pow_succ, Nat.mod_mul_left_mod]
    rw [← Nat.add_assoc, zeroFilled_succ (by omega), ih, zeroFilled_succ hk, hhead, hrest, hlast,
      List.append_assoc]

theorem isDigit_of_mem_zeroFilled {c : Char} (h : c ∈ zeroFilled w n) : c.isDigit = true := by
  rcases List.mem_append.mp h with h | h
  · rw [List.eq_of_mem_replicate h]
    rfl
  · exact isDigit_of_mem_digits h

theorem exists_zeroFilled_eq_cons (w n : Nat) :
    ∃ c cs, zeroFilled w n = c :: cs ∧ c.isDigit = true := by
  obtain ⟨c, cs, h⟩ := List.exists_cons_of_ne_nil
    (List.append_ne_nil_of_right_ne_nil (List.replicate (w - (digits n).length) '0')
      (digits_ne_nil n))
  refine ⟨c, cs, h, isDigit_of_mem_zeroFilled (w := w) (n := n) ?_⟩
  rw [zeroFilled, h]
  exact List.mem_cons_self

theorem plus_lt_of_isDigit {c : Char} (h : c.isDigit = true) : '+' < c := by
  simp only [Char.isDigit, Bool.and_eq_true, decide_eq_true_eq] at h
  exact Nat.lt_of_lt_of_le (by decide) h.1

theorem plus_lt_zeroFilled (w n : Nat) : '+' :: us < zeroFilled w n ++ vs := by
  obtain ⟨c, cs, h, hdigit⟩ := exists_zeroFilled_eq_cons w n
  rw [h]
  exact List.Lex.rel (plus_lt_of_isDigit hdigit)

/-- Fractions of a unit with nine places, each with as many digits as it is written with. Where the
digits of one begin with those of the other, the sign after the shorter one decides. -/
theorem fraction_lt (hi : 0 < i) (hj : 0 < j) (hi' : i ≤ 9) (hj' : j ≤ 9) (hm : m < 10 ^ i)
    (hn : n < 10 ^ j) (h : m * 10 ^ (9 - i) < n * 10 ^ (9 - j)) :
    zeroFilled i m ++ '+' :: us < zeroFilled j n ++ '+' :: vs := by
  rcases Nat.lt_trichotomy i j with hlt | rfl | hlt
  · obtain ⟨k, hk, rfl⟩ : ∃ k, 0 < k ∧ i + k = j := ⟨j - i, by omega, by omega⟩
    rw [show 9 - i = k + (9 - (i + k)) by omega, Nat.pow_add, ← Nat.mul_assoc] at h
    have hle : m * 10 ^ k < n := Nat.lt_of_mul_lt_mul_right h
    rw [zeroFilled_split hi hk, List.append_assoc]
    apply zeroFilled_append_lt hi hm
    · rw [Nat.pow_add, Nat.mul_comm] at hn
      exact Nat.div_lt_of_lt_mul hn
    · rcases Nat.lt_or_eq_of_le ((Nat.le_div_iff_mul_le (Nat.pow_pos (by decide))).mpr hle.le) with
        hlt | heq
      · exact Or.inl hlt
      · exact Or.inr ⟨heq, plus_lt_zeroFilled k _⟩
  · exact zeroFilled_append_lt hi hm hn (Or.inl (Nat.lt_of_mul_lt_mul_right h))
  · obtain ⟨k, hk, rfl⟩ : ∃ k, 0 < k ∧ j + k = i := ⟨i - j, by omega, by omega⟩
    rw [show 9 - j = k + (9 - (j + k)) by omega, Nat.pow_add, ← Nat.mul_assoc] at h
    have hlt : m < n * 10 ^ k := Nat.lt_of_mul_lt_mul_right h
    rw [zeroFilled_split hj hk, List.append_assoc]
    apply zeroFilled_append_lt hj ?_ hn
    · exact Or.inl ((Nat.div_lt_iff_lt_mul (Nat.pow_pos (by decide))).mpr hlt)
    · rw [Nat.pow_add, Nat.mul_comm] at hm
      exact Nat.div_lt_of_lt_mul hm

end Text

namespace Time

open Docket.Text

variable {f g : Nat} {y z : Int} {us vs xs ys : List Char}

theorem yearChars_of_neg (h : y < 0) : yearChars y = '-' :: zeroFilled 4 y.natAbs := by
  rw [yearChars, if_neg (by omega), if_pos h]

theorem yearChars_of_four_digits (h : 0 ≤ y) (h' : y ≤ 9999) :
    yearChars y = zeroFilled 4 y.natAbs :=
  if_pos ⟨h, h'⟩

theorem yearChars_of_gt (h : 9999 < y) : yearChars y = '+' :: zeroFilled 4 y.natAbs := by
  rw [yearChars, if_neg (by omega), if_neg (by omega)]

theorem yearChars_cases (y : Int) :
    0 ≤ y ∧ yearChars y = zeroFilled 4 y.natAbs ∨
      0 ≤ y ∧ yearChars y = '+' :: zeroFilled 4 y.natAbs ∨
      y < 0 ∧ yearChars y = '-' :: zeroFilled 4 y.natAbs := by
  rcases Int.lt_or_le y 0 with hneg | hpos
  · exact Or.inr (Or.inr ⟨hneg, yearChars_of_neg hneg⟩)
  · rcases Int.lt_or_le 9999 y with hlarge | hsmall
    · exact Or.inr (Or.inl ⟨hpos, yearChars_of_gt hlarge⟩)
    · exact Or.inl ⟨hpos, yearChars_of_four_digits hpos hsmall⟩

theorem zeroFilled_hyphen_inj {m n w : Nat}
    (h : zeroFilled w m ++ '-' :: us = zeroFilled w n ++ '-' :: vs) : m = n := by
  have hdigits (k : Nat) (ts : List Char) :
      (zeroFilled w k ++ '-' :: ts).takeWhile Char.isDigit = zeroFilled w k :=
    takeWhile_isDigit_append (fun _ hc => isDigit_of_mem_zeroFilled hc)
      fun _ hd => Option.some.inj hd ▸ rfl
  have hvalue := congrArg (fun cs => valueOf (cs.takeWhile Char.isDigit)) h
  simp only [hdigits] at hvalue
  rwa [zeroFilled, zeroFilled, valueOf_replicate_append, valueOf_replicate_append, valueOf_digits,
    valueOf_digits] at hvalue

theorem ne_zeroFilled {c : Char} (hc : c.isDigit = false) (w n : Nat) :
    c :: us ≠ zeroFilled w n ++ vs := by
  obtain ⟨d, ds, hds, hdigit⟩ := exists_zeroFilled_eq_cons w n
  rw [hds]
  intro h
  rw [(List.cons.inj h).1, hdigit] at hc
  cases hc

theorem yearChars_hyphen_inj (h : yearChars y ++ '-' :: us = yearChars z ++ '-' :: vs) :
    y = z := by
  have hdigits (hsame : zeroFilled 4 y.natAbs ++ '-' :: us = zeroFilled 4 z.natAbs ++ '-' :: vs) :
      y.natAbs = z.natAbs := zeroFilled_hyphen_inj hsame
  rcases yearChars_cases y with ⟨hy, hchars⟩ | ⟨hy, hchars⟩ | ⟨hy, hchars⟩ <;>
    rcases yearChars_cases z with ⟨hz, hchars'⟩ | ⟨hz, hchars'⟩ | ⟨hz, hchars'⟩ <;>
    rw [hchars, hchars'] at h
  · have hvalue := hdigits h
    omega
  · exact absurd h.symm (ne_zeroFilled (by decide) 4 _)
  · exact absurd h.symm (ne_zeroFilled (by decide) 4 _)
  · exact absurd h (ne_zeroFilled (by decide) 4 _)
  · have hvalue := hdigits (List.cons.inj h).2
    omega
  · exact absurd (List.cons.inj h).1 (by decide)
  · exact absurd h (ne_zeroFilled (by decide) 4 _)
  · exact absurd (List.cons.inj h).1 (by decide)
  · have hvalue := hdigits (List.cons.inj h).2
    omega

theorem fractionChars_eq (hf : 0 < f) (hf' : f < 1000000000) :
    ∃ i m, 0 < i ∧ i ≤ 9 ∧ m < 10 ^ i ∧ f = m * 10 ^ (9 - i) ∧
      fractionChars f = '.' :: zeroFilled i m := by
  unfold fractionChars
  rw [if_neg hf.ne']
  split
  · exact ⟨3, f / 1000000, by omega, by omega, by omega, by omega, rfl⟩
  · split
    · exact ⟨6, f / 1000, by omega, by omega, by omega, by omega, rfl⟩
    · exact ⟨9, f, by omega, by omega, by omega, by omega, rfl⟩

theorem fractionChars_append_lt (h : f < g) (hg : g < 1000000000) :
    fractionChars f ++ '+' :: us < fractionChars g ++ '+' :: vs := by
  obtain ⟨j, n, hj, hj', hn, hg, hchars⟩ := fractionChars_eq (by omega) hg
  rw [hchars]
  rcases Nat.eq_zero_or_pos f with rfl | hf
  · exact List.Lex.rel (by decide)
  · obtain ⟨i, m, hi, hi', hm, rfl, hchars⟩ := fractionChars_eq hf (by omega)
    rw [hchars]
    exact List.Lex.cons (fraction_lt hi hj hi' hj' hm hn (hg ▸ h))

namespace Instant

variable {a b : Instant}

/-- A leap second follows the last second of a minute. -/
def Regular (t : Instant) : Prop := 1000000000 ≤ t.nano → t.second % 60 = 59

instance (t : Instant) : Decidable t.Regular := inferInstanceAs (Decidable (_ → _))

/-- The order in time. -/
def Earlier (a b : Instant) : Prop := a.second < b.second ∨ a.second = b.second ∧ a.nano < b.nano

theorem earlier_or_eq_of_le (h : a.le b = true) : a.Earlier b ∨ a = b := by
  obtain ⟨s, n, hn⟩ := a
  obtain ⟨t, m, hm⟩ := b
  simp only [le, decide_eq_true_eq] at h
  rcases h with hlt | ⟨rfl, hle⟩
  · exact Or.inl (Or.inl hlt)
  · rcases Nat.lt_or_eq_of_le hle with hlt | rfl
    · exact Or.inl (Or.inr ⟨rfl, hlt⟩)
    · exact Or.inr rfl

/-- What is stored of the time of day, with the offset. -/
def timeChars (t : Instant) : List Char :=
  zeroFilled 2 (t.secondOfDay / 3600) ++ ':' :: (zeroFilled 2 (t.secondOfDay / 60 % 60) ++
    ':' :: (zeroFilled 2 (t.secondOfDay % 60 + t.nano / 1000000000) ++
      (fractionChars (t.nano % 1000000000) ++ ['+', '0', '0', ':', '0', '0'])))

/-- What is stored after the year and a hyphen. -/
def afterYear (t : Instant) : List Char :=
  zeroFilled 2 t.date.month ++ '-' :: (zeroFilled 2 t.date.day ++ 'T' :: t.timeChars)

theorem toList_storedText (t : Instant) :
    t.storedText.toList = yearChars t.year ++ '-' :: t.afterYear := by
  simp [storedText, universalChars, afterYear, timeChars, year]

theorem date_before_or_eq (h : a.second ≤ b.second) :
    a.date.Before b.date ∨ a.second / 86400 = b.second / 86400 := by
  rcases Int.lt_or_eq_of_le (Int.ediv_le_ediv (by decide : (0 : Int) < 86400) h) with hlt | heq
  · exact Or.inl (Date.before_of_lt hlt)
  · exact Or.inr heq

theorem Earlier.second_le (h : a.Earlier b) : a.second ≤ b.second := by
  rcases h with h | h <;> omega

theorem Earlier.year_le (h : a.Earlier b) : a.year ≤ b.year := by
  rcases date_before_or_eq h.second_le with (hlt | ⟨heq, -⟩) | hsame
  · exact hlt.le
  · exact heq.le
  · rw [year, date, hsame]
    exact le_rfl

theorem Earlier.time_lt (h : a.Earlier b) (ha : a.Regular)
    (hday : a.second / 86400 = b.second / 86400) :
    a.secondOfDay / 3600 < b.secondOfDay / 3600 ∨ a.secondOfDay / 3600 = b.secondOfDay / 3600 ∧
      (a.secondOfDay / 60 % 60 < b.secondOfDay / 60 % 60 ∨
        a.secondOfDay / 60 % 60 = b.secondOfDay / 60 % 60 ∧
          (a.secondOfDay % 60 + a.nano / 1000000000 < b.secondOfDay % 60 + b.nano / 1000000000 ∨
            a.secondOfDay % 60 + a.nano / 1000000000 = b.secondOfDay % 60 + b.nano / 1000000000 ∧
              a.nano % 1000000000 < b.nano % 1000000000)) := by
  have hnano := a.nano_lt
  unfold Regular at ha
  unfold secondOfDay
  rcases h with h | h <;> omega

theorem time_bounds (t : Instant) :
    t.secondOfDay / 3600 < 100 ∧ t.secondOfDay / 60 % 60 < 100 ∧
      t.secondOfDay % 60 + t.nano / 1000000000 < 100 := by
  have hnano := t.nano_lt
  unfold secondOfDay
  omega

theorem Earlier.timeChars_lt (h : a.Earlier b) (ha : a.Regular)
    (hday : a.second / 86400 = b.second / 86400) : a.timeChars < b.timeChars := by
  obtain ⟨hhour, hminute, hsecond⟩ := time_bounds a
  obtain ⟨hhour', hminute', hsecond'⟩ := time_bounds b
  apply field_lt hhour hhour'
  apply (h.time_lt ha hday).imp_right
  apply And.imp_right
  intro hminutes
  apply field_lt hminute hminute'
  apply hminutes.imp_right
  apply And.imp_right
  intro hseconds
  apply zeroFilled_append_lt (by decide) hsecond hsecond'
  apply hseconds.imp_right
  apply And.imp_right
  exact fun hfraction => fractionChars_append_lt hfraction (Nat.mod_lt _ (by decide))

theorem date_bounds (t : Instant) : t.date.month < 100 ∧ t.date.day < 100 := by
  have h := Date.ofDayNumber_bounds (t.second / 86400)
  unfold date
  omega

theorem Earlier.afterYear_lt (h : a.Earlier b) (ha : a.Regular) (hyear : a.year = b.year) :
    a.afterYear < b.afterYear := by
  obtain ⟨hmonth, hday⟩ := date_bounds a
  obtain ⟨hmonth', hday'⟩ := date_bounds b
  apply field_lt hmonth hmonth'
  rcases date_before_or_eq h.second_le with (hlt | ⟨-, hlt | ⟨heq, hlt⟩⟩) | hsame
  · exact absurd hyear hlt.ne
  · exact Or.inl hlt
  · exact Or.inr ⟨heq, field_lt hday hday' (Or.inl hlt)⟩
  · have hdate : a.date = b.date := congrArg Date.ofDayNumber hsame
    rw [hdate]
    exact Or.inr ⟨rfl, field_lt hday' hday' (Or.inr ⟨rfl, h.timeChars_lt ha hsame⟩)⟩

/-- In the years of four digits, the order of texts is that of time. -/
theorem Earlier.storedText_lt (h : a.Earlier b) (ha : a.Regular) (hyear : 0 ≤ a.year)
    (hyear' : b.year ≤ 9999) : a.storedText < b.storedText := by
  have hle := h.year_le
  rw [String.lt_iff_toList_lt, toList_storedText, toList_storedText,
    yearChars_of_four_digits (by omega) (by omega), yearChars_of_four_digits (by omega) hyear']
  apply zeroFilled_append_lt (by decide) (by omega) (by omega)
  rcases Int.lt_or_eq_of_le hle with hlt | heq
  · exact Or.inl (by omega)
  · exact Or.inr ⟨congrArg Int.natAbs heq, List.Lex.cons (h.afterYear_lt ha heq)⟩

/-- A year of more digits has a sign, which is less than any digit. -/
theorem storedText_lt_of_year (ha : 0 ≤ a.year) (ha' : a.year ≤ 9999) (hb : 9999 < b.year) :
    b.storedText < a.storedText := by
  rw [String.lt_iff_toList_lt, toList_storedText, toList_storedText, yearChars_of_gt hb,
    yearChars_of_four_digits ha ha']
  exact plus_lt_zeroFilled 4 _

theorem storedText_injective (ha : a.Regular) (hb : b.Regular)
    (h : a.storedText = b.storedText) : a = b := by
  have hchars := congrArg String.toList h
  rw [toList_storedText, toList_storedText] at hchars
  have hyear := yearChars_hyphen_inj hchars
  rw [hyear] at hchars
  have hafter := (List.cons.inj (List.append_cancel_left hchars)).2
  have htotal : a.le b = true ∨ b.le a = true := by
    simp only [le, decide_eq_true_eq]
    omega
  rcases htotal with hle | hle
  · rcases earlier_or_eq_of_le hle with hlt | heq
    · exact absurd hafter (hlt.afterYear_lt ha hyear).ne
    · exact heq
  · rcases earlier_or_eq_of_le hle with hlt | heq
    · exact absurd hafter.symm (hlt.afterYear_lt hb hyear.symm).ne
    · exact heq.symm

end Instant

end Time

end Docket
