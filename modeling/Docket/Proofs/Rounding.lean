import Mathlib.Tactic.Ring
import Mathlib.Tactic.NormNum
import Mathlib.Tactic.Linarith
import Mathlib.Tactic.Positivity
import Mathlib.Algebra.Order.Field.Rat
import Docket.Decimal.Basic

/-! # Rounding to whole numbers

A quotient is rounded to the whole number next to it, and a half to the even neighbour. That says
which number it is: no other one is as close, and even if there are two.
-/

namespace Docket

theorem cast_div_eq (n : Nat) {d : Nat} (hd : 0 < d) :
    (n : Rat) / d = (n / d : Nat) + ((n % d : Nat) : Rat) / d := by
  have hd' : (d : Rat) ≠ 0 := Nat.cast_ne_zero.mpr hd.ne'
  rw [add_div' _ _ _ hd', div_left_inj' hd']
  exact_mod_cast (Nat.div_add_mod' n d).symm

theorem eq_of_abs_sub_lt_one {m n : Nat} (h : |(m : Rat) - n| < 1) : m = n := by
  have hzero : (m : Int) - n = 0 := Int.abs_lt_one_iff.mp (by exact_mod_cast h)
  omega

/-- The whole number next to a rational, and of two that are as close the even one. -/
structure Nearest (q : Rat) (n : Int) : Prop where
  near : |(n : Rat) - q| ≤ 1 / 2
  even : |(n : Rat) - q| = 1 / 2 → Even n

namespace Nearest

variable {q : Rat} {m n : Int}

theorem neg (h : Nearest q n) : Nearest (-q) (-n) := by
  have habs : |((-n : Int) : Rat) - -q| = |(n : Rat) - q| := by
    rw [← abs_neg]
    congr 1
    push_cast
    ring
  constructor
  · rw [habs]
    exact h.near
  · rw [habs]
    exact fun hhalf => (h.even hhalf).neg

/-- Two whole numbers that are as close as one half are neighbours, and one of them is odd. -/
theorem unique (hm : Nearest q m) (hn : Nearest q n) : m = n := by
  wlog hle : m ≤ n generalizing m n
  · exact (this hn hm (by omega)).symm
  obtain ⟨hm1, hm2⟩ := abs_le.mp hm.near
  obtain ⟨hn1, hn2⟩ := abs_le.mp hn.near
  have hgap : n ≤ m + 1 := by
    have hcast : (n : Rat) ≤ m + 1 := by linarith
    exact_mod_cast hcast
  by_contra hne
  have hnext : n = m + 1 := by omega
  subst hnext
  push_cast at hn1 hn2
  have hhalf : |(m : Rat) - q| = 1 / 2 := by
    have heq : (m : Rat) - q = -(1 / 2) := by linarith
    rw [heq]
    norm_num
  have hhalf' : |((m + 1 : Int) : Rat) - q| = 1 / 2 := by
    have heq : ((m + 1 : Int) : Rat) - q = 1 / 2 := by
      push_cast
      linarith
    rw [heq]
    norm_num
  have heven := hm.even hhalf
  have heven' := hn.even hhalf'
  rw [Int.even_add_one] at heven'
  exact heven' heven

theorem of_floor {f : Rat} (hf : 0 ≤ f) (h : f < 1 / 2 ∨ f = 1 / 2 ∧ Even m) :
    Nearest (m + f) m := by
  have habs : |(m : Rat) - (m + f)| = f := by
    rw [sub_add_cancel_left, abs_neg, abs_of_nonneg hf]
  rcases h with hlt | ⟨heq, heven⟩
  · exact ⟨by rw [habs]; exact hlt.le, fun hhalf => absurd (habs ▸ hhalf) hlt.ne⟩
  · exact ⟨by rw [habs]; exact heq.le, fun _ => heven⟩

theorem of_ceil {f : Rat} (hf : f ≤ 1) (h : 1 / 2 < f ∨ f = 1 / 2 ∧ ¬ Even m) :
    Nearest (m + f) (m + 1 : Int) := by
  have habs : |((m + 1 : Int) : Rat) - (m + f)| = 1 - f := by
    push_cast
    rw [add_sub_add_left_eq_sub, abs_of_nonneg (by linarith)]
  rcases h with hlt | ⟨heq, hodd⟩
  · constructor
    · rw [habs]
      linarith
    · intro hhalf
      rw [habs] at hhalf
      linarith
  · constructor
    · rw [habs]
      linarith
    · exact fun _ => Int.even_add_one.mpr hodd

end Nearest

namespace Decimal

theorem cast_div_lt_half_iff {r d : Nat} (hd : 0 < d) : (r : Rat) / d < 1 / 2 ↔ 2 * r < d := by
  rw [div_lt_div_iff₀ (Nat.cast_pos.mpr hd) two_pos, one_mul, mul_comm]
  exact_mod_cast Iff.rfl

theorem cast_div_eq_half_iff {r d : Nat} (hd : 0 < d) : (r : Rat) / d = 1 / 2 ↔ 2 * r = d := by
  rw [div_eq_div_iff (Nat.cast_ne_zero.mpr hd.ne') two_ne_zero, one_mul, mul_comm]
  exact_mod_cast Iff.rfl

theorem nearest_roundQuotient (n : Nat) {d : Nat} (hd : 0 < d) :
    Nearest ((n : Rat) / d) (roundQuotient n d) := by
  have hd' : (0 : Rat) < d := Nat.cast_pos.mpr hd
  have hf : (0 : Rat) ≤ (n % d : Nat) / d := by positivity
  have hf' : ((n % d : Nat) : Rat) / d ≤ 1 :=
    (div_le_one hd').mpr (by exact_mod_cast (Nat.mod_lt n hd).le)
  have heven : Even ((n / d : Nat) : Int) ↔ n / d % 2 = 0 := by
    rw [Int.even_coe_nat, Nat.even_iff]
  rw [cast_div_eq n hd, ← Int.cast_natCast (n / d)]
  unfold roundQuotient
  dsimp only
  split
  · next h =>
    apply Nearest.of_floor hf
    rwa [cast_div_lt_half_iff hd, cast_div_eq_half_iff hd, heven]
  · next h =>
    apply Nearest.of_ceil hf'
    rw [cast_div_eq_half_iff hd, heven, ← not_le, le_iff_lt_or_eq, cast_div_lt_half_iff hd,
      cast_div_eq_half_iff hd]
    tauto

/-- Quotients of integers are rounded alike on both sides of zero. -/
theorem nearest_roundDiv (z : Int) {d : Nat} (hd : 0 < d) :
    Nearest ((z : Rat) / d) (roundDiv z d) := by
  have h := nearest_roundQuotient z.natAbs hd
  unfold roundDiv
  split
  · next hz =>
    have hcast : ((z.natAbs : Nat) : Rat) = -z := by
      rw [Nat.cast_natAbs, abs_of_neg hz, Int.cast_neg]
    rw [hcast, neg_div] at h
    simpa using h.neg
  · next hz =>
    have hcast : ((z.natAbs : Nat) : Rat) = z := by
      rw [Nat.cast_natAbs, abs_of_nonneg (Int.not_lt.mp hz)]
    rwa [hcast] at h

/-- An even number that is at most half above a quotient is at most what it is rounded to. -/
theorem le_roundQuotient {n d k : Nat} (hd : 0 < d) (hk : k % 2 = 0)
    (h : 2 * k * d ≤ 2 * n + d) : k ≤ roundQuotient n d := by
  have hn := Nat.div_add_mod n d
  have hr := Nat.mod_lt n hd
  unfold roundQuotient
  dsimp only
  by_cases hq : k ≤ n / d
  · split <;> omega
  · have hle : k = n / d + 1 := by
      by_contra hne
      have hlt : n / d + 2 ≤ k := by omega
      have hmul := Nat.mul_le_mul_right d (Nat.mul_le_mul_left 2 hlt)
      have hexpand : 2 * (n / d + 2) * d = 2 * (d * (n / d)) + 4 * d := by ring
      omega
    have hmul : 2 * k * d = 2 * (d * (n / d)) + 2 * d := by rw [hle]; ring
    split <;> omega

end Decimal

end Docket
