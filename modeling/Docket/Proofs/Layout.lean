import Mathlib.Data.List.Basic
import Docket.Issuing.Layout

/-! # Numbers without a pattern

A number that is laid out without a pattern shows its year and its value between slashes, and can be
taken apart again: with the same lead, series and padding, different years or values look different.
-/

namespace Docket.Text

theorem not_mem_digits {c : Char} (hc : c.isDigit = false) (n : Nat) : c ∉ digits n :=
  fun hmem => absurd (hc.symm.trans (isDigit_of_mem_digits hmem)) Bool.false_ne_true

theorem valueOf_replicate_append (k : Nat) (ds : List Char) :
    valueOf (List.replicate k '0' ++ ds) = valueOf ds := by
  induction k with
  | zero => rfl
  | succ k ih => exact ih

theorem padded_of_neg {z : Int} (h : z < 0) (width : Nat) :
    padded width z
      = '-' :: (List.replicate (width - 1 - (digits z.natAbs).length) '0' ++ digits z.natAbs) :=
  if_pos h

theorem padded_of_nonneg {z : Int} (h : 0 ≤ z) (width : Nat) :
    padded width z
      = List.replicate (width - (digits z.natAbs).length) '0' ++ digits z.natAbs :=
  if_neg (Int.not_lt.mpr h)

theorem padded_zero (z : Int) : padded 0 z = numeral z := by
  simp only [padded, numeral, Nat.zero_sub, List.replicate_zero, List.nil_append]

theorem padded_ne_nil (width : Nat) (z : Int) : padded width z ≠ [] := by
  unfold padded
  split
  · exact List.cons_ne_nil _ _
  · exact List.append_ne_nil_of_right_ne_nil _ (digits_ne_nil _)

theorem not_mem_padded {c : Char} (hdigit : c.isDigit = false) (hsign : c ≠ '-') (width : Nat)
    (z : Int) : c ∉ padded width z := by
  have hdigits : c ∉ digits z.natAbs := not_mem_digits hdigit _
  have hzero : c ≠ '0' := by
    rintro rfl
    exact absurd hdigit (by decide)
  unfold padded
  split
  · simp [hdigits, hsign, hzero, List.mem_replicate]
  · simp [hdigits, hzero, List.mem_replicate]

theorem hyphen_not_mem_padded {z : Int} (h : 0 ≤ z) (width : Nat) : '-' ∉ padded width z := by
  have hdigits : '-' ∉ digits z.natAbs := not_mem_digits (by decide) _
  rw [padded_of_nonneg h]
  simp [hdigits, List.mem_replicate]

theorem padded_injective {width : Nat} {y z : Int} (h : padded width y = padded width z) :
    y = z := by
  rcases Int.lt_or_le y 0 with hy | hy <;> rcases Int.lt_or_le z 0 with hz | hz
  · rw [padded_of_neg hy, padded_of_neg hz] at h
    have hvalue := congrArg valueOf (List.cons.inj h).2
    rw [valueOf_replicate_append, valueOf_replicate_append, valueOf_digits,
      valueOf_digits] at hvalue
    omega
  · have hmem : '-' ∉ padded width y := h ▸ hyphen_not_mem_padded hz width
    rw [padded_of_neg hy] at hmem
    exact absurd List.mem_cons_self hmem
  · have hmem : '-' ∉ padded width z := h ▸ hyphen_not_mem_padded hy width
    rw [padded_of_neg hz] at hmem
    exact absurd List.mem_cons_self hmem
  · rw [padded_of_nonneg hy, padded_of_nonneg hz] at h
    have hvalue := congrArg valueOf h
    rw [valueOf_replicate_append, valueOf_replicate_append, valueOf_digits,
      valueOf_digits] at hvalue
    omega

theorem numeral_injective {y z : Int} (h : numeral y = numeral z) : y = z := by
  rw [← padded_zero, ← padded_zero] at h
  exact padded_injective h

end Docket.Text

namespace Docket.Issuing.Snapshot

open Docket.Text

variable {s t : Snapshot}

theorem intercalate_append_inj {separator : List Char} {parts ps qs : List (List Char)}
    (hp : ps ≠ []) (hq : qs ≠ [])
    (h : separator.intercalate (parts ++ ps) = separator.intercalate (parts ++ qs)) :
    separator.intercalate ps = separator.intercalate qs := by
  induction parts with
  | nil => exact h
  | cons x parts ih =>
    obtain ⟨p, ps', hps⟩ := List.exists_cons_of_ne_nil (List.append_ne_nil_of_right_ne_nil parts hp)
    obtain ⟨q, qs', hqs⟩ := List.exists_cons_of_ne_nil (List.append_ne_nil_of_right_ne_nil parts hq)
    rw [List.cons_append, List.cons_append, hps, hqs, List.intercalate_cons_cons,
      List.intercalate_cons_cons] at h
    exact ih (hps ▸ hqs ▸ List.append_cancel_left h)

/-- The parts that tell numbers of one series apart: the year, if there is one, and the value. -/
def tail (s : Snapshot) : List (List Char) :=
  (s.year.map numeral).toList ++ [padded s.padding s.value]

theorem joined_eq (s : Snapshot) :
    s.joined = List.intercalate ['/']
      ([s.part .lead, s.part .series].filter (· ≠ []) ++ s.tail) := by
  have hparts : Placeholder.all.map s.part
      = [s.part .lead, s.part .series] ++ ([s.part .year] ++ [s.part .number]) := rfl
  have hyear : [s.part .year].filter (· ≠ []) = (s.year.map numeral).toList := by
    cases hy : s.year with
    | none => simp [part, hy]
    | some y =>
      have hne : numeral y ≠ [] := padded_zero y ▸ padded_ne_nil 0 y
      simp [part, hy, hne]
  have hnumber : [s.part .number].filter (· ≠ []) = [padded s.padding s.value] := by
    simp [part, padded_ne_nil]
  rw [joined, hparts, List.filter_append, List.filter_append, hyear, hnumber, tail]

theorem slash_mem_tail {y : Int} (hy : s.year = some y) : '/' ∈ List.intercalate ['/'] s.tail := by
  simp [tail, hy]

theorem tail_of_none (hy : s.year = none) :
    List.intercalate ['/'] s.tail = padded s.padding s.value := by
  simp [tail, hy]

theorem tail_of_some {y : Int} (hy : s.year = some y) :
    List.intercalate ['/'] s.tail = numeral y ++ '/' :: padded s.padding s.value := by
  simp [tail, hy]

theorem tail_injective (hpadding : s.padding = t.padding)
    (h : List.intercalate ['/'] s.tail = List.intercalate ['/'] t.tail) :
    s.year = t.year ∧ s.value = t.value := by
  have hslash : ∀ width z, '/' ∉ padded width z := not_mem_padded (by decide) (by decide)
  cases hs : s.year with
  | none =>
    cases ht : t.year with
    | none =>
      rw [tail_of_none hs, tail_of_none ht, hpadding] at h
      exact ⟨rfl, padded_injective h⟩
    | some z =>
      have hmem := slash_mem_tail ht
      rw [← h, tail_of_none hs] at hmem
      exact absurd hmem (hslash _ _)
  | some y =>
    cases ht : t.year with
    | none =>
      have hmem := slash_mem_tail hs
      rw [h, tail_of_none ht] at hmem
      exact absurd hmem (hslash _ _)
    | some z =>
      rw [tail_of_some hs, tail_of_some ht, hpadding] at h
      have hyear : '/' ∉ numeral y := padded_zero y ▸ hslash 0 y
      have hvalue : '/' ∉ padded t.padding s.value := hslash _ _
      obtain ⟨hyears, -, hvalues⟩ := (List.append_cons_inj_of_notMem hyear hvalue).mp h
      exact ⟨congrArg some (numeral_injective hyears), padded_injective hvalues⟩

theorem joined_injective (hlead : s.lead = t.lead) (hseries : s.series = t.series)
    (hpadding : s.padding = t.padding) (h : s.joined = t.joined) :
    s.year = t.year ∧ s.value = t.value := by
  have hparts : [s.part .lead, s.part .series] = [t.part .lead, t.part .series] := by
    simp only [part, hlead, hseries]
  have htail : ∀ u : Snapshot, u.tail ≠ [] := fun u =>
    List.append_ne_nil_of_right_ne_nil _ (List.cons_ne_nil _ _)
  rw [joined_eq, joined_eq, hparts] at h
  exact tail_injective hpadding (intercalate_append_inj (htail s) (htail t) h)

theorem text_of_plain (h : s.pattern = none) : s.text = String.ofList s.joined := by
  rw [text, chars, h]

/-- Numbers that are laid out alike, without a pattern, look alike only where they are of the same
year and value. -/
theorem text_eq_iff (hs : s.pattern = none) (ht : t.pattern = none) (hlead : s.lead = t.lead)
    (hseries : s.series = t.series) (hpadding : s.padding = t.padding) :
    s.text = t.text ↔ s.year = t.year ∧ s.value = t.value := by
  constructor
  · intro h
    rw [text_of_plain hs, text_of_plain ht] at h
    exact joined_injective hlead hseries hpadding (String.ofList_injective h)
  · rintro ⟨hyear, hvalue⟩
    have hparts : s.part = t.part := by
      funext p
      cases p <;> simp only [part, hlead, hseries, hpadding, hyear, hvalue]
    rw [text_of_plain hs, text_of_plain ht, joined, joined, hparts]

end Docket.Issuing.Snapshot
