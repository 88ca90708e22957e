import Mathlib.Tactic.IntervalCases
import Docket.Proofs.Amounts
import Docket.Proofs.Binary

/-! # Amounts that survive being stored

An amount is stored as the binary number next to it and loaded as the decimal that this one leads
to. Amounts of at most fifteen digits come back as they were, except for some in four binades:
there binary numbers lie hardly closer together than the decimals that they are loaded as. Nothing
is loaded of an amount that is stored as two to the power 96.
-/

namespace Docket

namespace Double

namespace Approximation

theorem toRat_mul_pow (a : Approximation) : a.toRat * 10 ^ a.places = a.coefficient := by
  have hpos : (10 : Rat) ^ a.places ≠ 0 := by positivity
  exact div_mul_cancel₀ _ hpos

theorem toRat_eq_of_close {a : Approximation} {c p m : Nat} (ha : a.places ≤ m) (hp : p ≤ m)
    (h : |a.toRat - c / 10 ^ p| * 10 ^ m < 1) : a.toRat = c / 10 ^ p := by
  have hpos : (0 : Rat) < 10 ^ m := by positivity
  have hleft : a.toRat * 10 ^ m = (a.coefficient * 10 ^ (m - a.places) : Nat) := by
    rw [← Nat.add_sub_of_le ha, pow_add, ← mul_assoc, toRat_mul_pow, Nat.add_sub_cancel_left]
    push_cast
    rfl
  have hright : (c : Rat) / 10 ^ p * 10 ^ m = (c * 10 ^ (m - p) : Nat) := by
    have hpos : (10 : Rat) ^ p ≠ 0 := by positivity
    rw [← Nat.add_sub_of_le hp, pow_add, ← mul_assoc, div_mul_cancel₀ _ hpos,
      Nat.add_sub_cancel_left]
    push_cast
    rfl
  have hscaled : |(a.toRat - c / 10 ^ p) * 10 ^ m| < 1 := by rwa [abs_mul, abs_of_pos hpos]
  rw [sub_mul, hleft, hright] at hscaled
  refine mul_right_cancel₀ hpos.ne' ?_
  rw [hleft, hright, eq_of_abs_sub_lt_one hscaled]

theorem dropBits_of_lt (n : Nat) {a : Approximation} (h : a.coefficient < leastSignificand) :
    a.dropBits n = a := by
  cases n with
  | zero => rfl
  | succ n => exact if_pos h

theorem settled_eq {a : Approximation} {c p : Nat} (hp : p ≤ 28)
    (hlarge : 86 / 9 < a.toRat * 10 ^ 29) (hbits : a.toRat * 10 ^ p + 5 / 9 < leastSignificand)
    (hfar : |a.toRat - c / 10 ^ p| * 10 ^ p < 1)
    (hclose : ∀ k ≤ 28, a.toRat * 10 ^ k ≤ leastSignificand - 4 / 9 →
      |a.toRat - c / 10 ^ p| * 10 ^ k < 4 / 9) :
    a.settled.toRat = c / 10 ^ p := by
  have hv : 0 ≤ a.toRat := div_nonneg (Nat.cast_nonneg _) (by positivity)
  obtain ⟨b, hb, hnear, hplaces⟩ : ∃ b, a.dropPlaces (a.places - 28) = b ∧ b.Near a.toRat ∧
      (b.places = 28 ∨ b.places < 28 ∧ b = a) := by
    refine ⟨_, rfl, ?_⟩
    by_cases h : a.places < 28
    · rw [Nat.sub_eq_zero_of_le h.le]
      exact ⟨a.near_self, Or.inr ⟨h, rfl⟩⟩
    · exact (a.near_self.dropPlaces hlarge (by omega)).imp_right Or.inl
  have hsettled : a.settled.toRat = (b.dropBits b.places).toRat := by
    unfold settled
    rw [hb]
    exact (dropZeros_spec le_rfl).1
  rw [hsettled]
  by_cases hfew : p ≤ b.places
  · obtain ⟨hnear, hge, hle, hlt⟩ := hnear.dropBits hv hbits rfl hfew
    generalize b.dropBits b.places = d at hnear hge hle hlt
    refine toRat_eq_of_close le_rfl hge ?_
    have hlt' : (d.coefficient : Rat) ≤ leastSignificand - 1 := by
      rw [le_sub_iff_add_le]
      exact_mod_cast hlt
    obtain ⟨h1, h2⟩ := abs_le.mp hnear
    have hcut := hclose d.places (by omega) (by linarith)
    have hpos : (0 : Rat) < 10 ^ d.places := by positivity
    calc |d.toRat - c / 10 ^ p| * 10 ^ d.places
      _ ≤ (|d.toRat - a.toRat| + |a.toRat - c / 10 ^ p|) * 10 ^ d.places :=
        mul_le_mul_of_nonneg_right (abs_sub_le _ _ _) hpos.le
      _ = |d.coefficient - a.toRat * 10 ^ d.places| + |a.toRat - c / 10 ^ p| * 10 ^ d.places := by
        rw [add_mul, ← d.toRat_mul_pow, ← sub_mul, abs_mul (d.toRat - a.toRat), abs_of_pos hpos]
      _ < 5 / 9 + 4 / 9 := add_lt_add_of_le_of_lt hnear hcut
      _ = 1 := by norm_num
  · -- nothing has been cut, so all places of the approximation are those of the decimal
    obtain h | ⟨-, rfl⟩ := hplaces
    · omega
    · rw [dropBits_of_lt _ (hnear.coefficient_lt (by omega) hv hbits)]
      exact toRat_eq_of_close (by omega) le_rfl hfar

end Approximation

/-- Where loading a number with a fraction begins. -/
def multiplied (x : Double) : Approximation :=
  .ofFives x.exponent.natAbs x.exponent.natAbs x.significand

theorem magnitude_eq_fives {x : Double} (h : x.exponent < 0) :
    x.magnitude
      = Approximation.fives x.exponent.natAbs x.exponent.natAbs x.significand := by
  obtain ⟨n, hn⟩ : ∃ n : Nat, x.exponent = -n := ⟨x.exponent.natAbs, by omega⟩
  unfold magnitude Approximation.fives
  rw [hn, Int.natAbs_neg, Int.natAbs_natCast, zpow_neg, zpow_natCast, mul_div_assoc, ← div_pow,
    ← inv_pow]
  norm_num

namespace Rounds

variable {x : Double} {q : Rat} {e : Int}

theorem exponent_lt (h : x.Rounds q e) {m : Int} (hq : q < 2 ^ m) : e + 52 < m :=
  (zpow_lt_zpow_iff_right₀ one_lt_two).mp (h.le_quotient.trans_lt hq)

theorem lt_exponent (h : x.Rounds q e) {m : Int} (hq : (2 : Rat) ^ m ≤ q) : m < e + 53 :=
  (zpow_lt_zpow_iff_right₀ one_lt_two).mp (hq.trans_lt h.quotient_lt)

theorem error_le_quotient (h : x.Rounds q e) : |x.magnitude - q| * 2 ^ 53 ≤ q := by
  have hlow := h.le_quotient
  rw [zpow_add₀ two_ne_zero] at hlow
  have herror := h.error_le
  norm_num at hlow ⊢
  linarith

theorem multiplied_bounds (h : x.Rounds q e) (hneg : x.exponent < 0) (hq : 1 ≤ q * 10 ^ 28) :
    x.magnitude * (1 - 1 / 2 ^ 86) ≤ x.multiplied.toRat ∧ x.multiplied.toRat ≤ x.magnitude := by
  have hexponent : x.exponent.natAbs ≤ 147 := by
    have hlt : -94 < e + 53 := h.lt_exponent (by norm_num at hq ⊢; linarith)
    have hcases := h.exponent
    omega
  have hbits : x.significand < Decimal.bound :=
    h.significand_lt.trans (by decide)
  obtain ⟨hlow, hhigh, -⟩ := Approximation.ofFives_bounds (le_refl x.exponent.natAbs) hbits
  rw [← magnitude_eq_fives hneg] at hlow hhigh
  refine ⟨le_trans ?_ hlow, hhigh⟩
  have hkept : (1 - 1 / 2 ^ 86 : Rat) ≤ Approximation.kept ^ x.exponent.natAbs := by
    generalize x.exponent.natAbs = n at hexponent
    have hbernoulli := one_add_mul_le_pow (R := Rat) (a := -(5 / Decimal.bound))
      (by norm_num [Decimal.bound]) n
    rw [← sub_eq_add_neg] at hbernoulli
    refine le_trans ?_ hbernoulli
    have hcount : (n : Rat) ≤ 147 := by exact_mod_cast hexponent
    norm_num [Decimal.bound]
    linarith
  have hmagnitude : 0 ≤ x.magnitude := le_trans (by positivity) h.le_magnitude
  rw [mul_comm]
  exact mul_le_mul_of_nonneg_right hkept hmagnitude

end Rounds

/-- Where binary numbers are as far apart as half of the last place of decimals of as many digits,
or farther, by more than an eighth. -/
theorem pow_ten_le {k n : Nat} (hk : k ≤ 28) (hlt : 10 ^ k < 2 ^ n)
    (hn : n ∉ [10, 20, 30, 40]) : 10000 * 10 ^ k ≤ 8885 * 2 ^ n := by
  by_cases hlarge : 95 ≤ n
  · have hten : 10 ^ k ≤ 10 ^ 28 := Nat.pow_le_pow_right (by decide) hk
    have htwo : 2 ^ 95 ≤ 2 ^ n := Nat.pow_le_pow_right (by decide) hlarge
    have hends : 10000 * 10 ^ 28 ≤ 8885 * 2 ^ 95 := by decide
    omega
  · have hfinite : ∀ k : Fin 29, ∀ n : Fin 95, 10 ^ k.val < 2 ^ n.val →
        n.val ∉ [10, 20, 30, 40] → 10000 * 10 ^ k.val ≤ 8885 * 2 ^ n.val := by decide +kernel
    exact hfinite ⟨k, by omega⟩ ⟨n, by omega⟩ hlt hn

/-- Binades whose binary numbers lie hardly closer together than the decimals they are loaded
as. -/
def crowded : List Nat := [12, 22, 32, 42]

namespace Rounds

variable {x : Double} {q : Rat} {c p : Nat} {e : Int}

/-- The distance of a number from the amount it stands for, in the last place that it keeps with
less than 53 bits. -/
theorem error_mul_pow_le (h : x.Rounds (c / 10 ^ p) e) (he : e < 0)
    (hapart : x.magnitude = c / 10 ^ p ∨
      ∀ w ∈ crowded, (c : Rat) / 10 ^ p < 2 ^ w ∨ 2 ^ (w + 1) ≤ (c : Rat) / 10 ^ p)
    {k : Nat} (hk : k ≤ 28) (hlt : x.magnitude * 10 ^ k < leastSignificand) :
    |x.magnitude - c / 10 ^ p| * 10 ^ k ≤ 8885 / 20000 := by
  obtain heq | hapart := hapart
  · rw [heq, sub_self, abs_zero, zero_mul]
    norm_num
  · obtain ⟨n, rfl⟩ : ∃ n : Nat, e = -n := ⟨e.natAbs, by omega⟩
    have hpow : (0 : Rat) < 2 ^ n := by positivity
    have hten : (0 : Rat) < 10 ^ k := by positivity
    have hspacing : (10 : Rat) ^ k < 2 ^ n := by
      have hlow := mul_le_mul_of_nonneg_right h.le_magnitude hten.le
      rw [zpow_add₀ two_ne_zero, zpow_neg, zpow_natCast] at hlow
      have hone : ((2 : Rat) ^ n)⁻¹ * 10 ^ k * 2 ^ 52 < 1 * 2 ^ 52 := by
        rw [one_mul, ← leastSignificand_eq]
        refine lt_of_le_of_lt (le_of_eq_of_le ?_ hlow) hlt
        rw [leastSignificand_eq, mul_right_comm]
        rfl
      rwa [mul_lt_mul_iff_left₀ (by positivity), inv_mul_lt_one₀ hpow] at hone
    have hn : n ∉ [10, 20, 30, 40] := by
      intro hmem
      have hbinade : ∀ n ∈ [10, 20, 30, 40], ∃ w ∈ crowded, w + n = 52 := by decide
      obtain ⟨w, hw, hsum⟩ := hbinade n hmem
      have hlow := h.le_quotient
      have hhigh := h.quotient_lt
      rw [show -(n : Int) + 52 = w by omega, zpow_natCast] at hlow
      rw [show -(n : Int) + 53 = (w + 1 : Nat) by omega, zpow_natCast] at hhigh
      rcases hapart w hw with hbelow | habove
      · exact absurd hlow (not_le.mpr hbelow)
      · exact absurd hhigh (not_lt.mpr habove)
    have hbound : (10000 : Rat) * 10 ^ k ≤ 8885 * 2 ^ n := by
      exact_mod_cast pow_ten_le hk (by exact_mod_cast hspacing) hn
    have herror := mul_le_mul_of_nonneg_right h.error_le hten.le
    refine herror.trans ?_
    rw [zpow_neg, zpow_natCast, div_mul_eq_mul_div, inv_mul_eq_div, div_div,
      div_le_div_iff₀ (by positivity) (by norm_num)]
    linarith

/-- Loading a number has led hardly away from what it stands for before places are cut. -/
theorem abs_multiplied_sub_le (h : x.Rounds q e) (hneg : x.exponent < 0) (hq : 1 ≤ q * 10 ^ 28) :
    |x.multiplied.toRat - q| ≤ x.magnitude / 2 ^ 86 + |x.magnitude - q| ∧
      |x.multiplied.toRat - q| * 2 ^ 52 ≤ q := by
  obtain ⟨hlow, hhigh⟩ := h.multiplied_bounds hneg hq
  have herror := h.error_le_quotient
  have hdistance := abs_sub_le x.multiplied.toRat x.magnitude q
  have hloss : |x.multiplied.toRat - x.magnitude| ≤ x.magnitude / 2 ^ 86 := by
    rw [abs_le]
    constructor <;> linarith
  have hy := (abs_le.mp (le_refl |x.magnitude - q|)).2
  refine ⟨by linarith, ?_⟩
  norm_num at hloss herror ⊢
  linarith

theorem settled_eq (h : x.Rounds (c / 10 ^ p) e) (hc : 0 < c) (hdigits : c < 10 ^ 15) (hp : p ≤ 28)
    (hapart : x.magnitude = c / 10 ^ p ∨
      ∀ w ∈ crowded, (c : Rat) / 10 ^ p < 2 ^ w ∨ 2 ^ (w + 1) ≤ (c : Rat) / 10 ^ p) :
    x.exponent < 0 ∧ x.multiplied.settled.toRat = c / 10 ^ p := by
  have hten : (0 : Rat) < 10 ^ p := by positivity
  have hc1 : (1 : Rat) ≤ c := by exact_mod_cast hc
  have hc15 : (c : Rat) < 1000000000000000 := by exact_mod_cast hdigits
  have hscaled : (c : Rat) / 10 ^ p * 10 ^ p = c := div_mul_cancel₀ _ hten.ne'
  have hone : 1 ≤ (c : Rat) / 10 ^ p * 10 ^ 28 := by
    have hpow : (10 : Rat) ^ p ≤ 10 ^ 28 := pow_le_pow_right₀ (by norm_num) hp
    rw [div_mul_eq_mul_div, one_le_div hten]
    nlinarith
  have hexponent : e + 52 < 50 := by
    have hle : (c : Rat) / 10 ^ p ≤ c := div_le_self (by positivity) (one_le_pow₀ (by norm_num))
    exact h.exponent_lt (hle.trans_lt (hc15.trans (by norm_num)))
  have hneg : x.exponent < 0 := by
    have hcases := h.exponent
    omega
  refine ⟨hneg, ?_⟩
  obtain ⟨hdistance, hrelative⟩ := h.abs_multiplied_sub_le hneg hone
  obtain ⟨hbelow, habove⟩ := abs_le.mp (le_refl |x.multiplied.toRat - c / 10 ^ p|)
  refine Approximation.settled_eq hp ?_ ?_ ?_ fun k hk hbits => ?_
  · norm_num at hrelative hone ⊢
    linarith
  · have hle : x.multiplied.toRat * 10 ^ p * 2 ^ 52 ≤ c * (2 ^ 52 + 1) := by
      calc x.multiplied.toRat * 10 ^ p * 2 ^ 52
        _ = x.multiplied.toRat * 2 ^ 52 * 10 ^ p := by ring
        _ ≤ c / 10 ^ p * (2 ^ 52 + 1) * 10 ^ p :=
          mul_le_mul_of_nonneg_right (by linarith) hten.le
        _ = c * (2 ^ 52 + 1) := by rw [mul_right_comm, hscaled]
    rw [leastSignificand_eq]
    norm_num at hle ⊢
    linarith
  · have hle := mul_le_mul_of_nonneg_right hrelative hten.le
    rw [hscaled, mul_right_comm] at hle
    norm_num at hle
    linarith
  · have hpos : (0 : Rat) < 10 ^ k := by positivity
    have hmagnitude : x.magnitude * 10 ^ k < leastSignificand := by
      have hlow := mul_le_mul_of_nonneg_right (h.multiplied_bounds hneg hone).1 hpos.le
      rw [mul_right_comm] at hlow
      rw [leastSignificand_eq] at hbits ⊢
      norm_num at hlow hbits ⊢
      linarith
    have hcut := h.error_mul_pow_le (by omega) hapart hk hmagnitude
    have hle := mul_le_mul_of_nonneg_right hdistance hpos.le
    rw [add_mul, div_mul_eq_mul_div] at hle
    rw [leastSignificand_eq] at hmagnitude
    norm_num at hle hmagnitude hcut ⊢
    linarith

theorem magnitude_eq_of_whole (h : x.Rounds q e) (he : e < 0) {w : Nat} (hq : q = w) :
    x.magnitude = q := by
  have hpos : (0 : Rat) < 2 ^ e := by positivity
  obtain ⟨n, rfl⟩ : ∃ n : Nat, e = -n := ⟨e.natAbs, by omega⟩
  obtain ⟨m, hm⟩ : ∃ m : Nat, x.magnitude = m * 2 ^ (-n : Int) := by
    unfold magnitude
    rcases h.exponent with hexponent | hexponent
    · exact ⟨x.significand, by rw [hexponent]⟩
    · refine ⟨2 * x.significand, ?_⟩
      rw [hexponent, zpow_add_one₀ two_ne_zero]
      push_cast
      ring
  have hw : q = (w * 2 ^ n : Nat) * 2 ^ (-n : Int) := by
    have hinverse : (2 : Rat) ^ n * 2 ^ (-n : Int) = 1 := by
      rw [zpow_neg, zpow_natCast, mul_inv_cancel₀ (by positivity)]
    push_cast
    rw [mul_assoc, hinverse, mul_one, hq]
  have herror := h.error_le
  rw [hm, hw, ← sub_mul, abs_mul, abs_of_pos hpos, div_eq_inv_mul,
    mul_le_mul_iff_left₀ hpos] at herror
  have hlt : |(m : Rat) - (w * 2 ^ n : Nat)| < 1 := lt_of_le_of_lt herror (by norm_num)
  rw [hm, hw, eq_of_abs_sub_lt_one hlt]

end Rounds

theorem negative_carry (negative : Bool) (m : Nat) (e : Int) :
    (carry negative m e).negative = negative := by
  unfold carry
  split <;> rfl

def signed (negative : Bool) (n : Nat) : Int := if negative then -n else n

theorem natAbs_signed (negative : Bool) (n : Nat) : (signed negative n).natAbs = n := by
  unfold signed
  split
  · rw [Int.natAbs_neg, Int.natAbs_natCast]
  · exact Int.natAbs_natCast n

/-- The value without a sign that a number is loaded as. -/
def loaded (x : Double) : Approximation :=
  if 0 ≤ x.exponent then ⟨x.significand * Nat.pow 2 x.exponent.natAbs, 0⟩
  else x.multiplied.settled

theorem toDecimal?_eq (x : Double) : x.toDecimal?
    = Decimal.ofParts? (signed x.negative x.loaded.coefficient) x.loaded.places := rfl

theorem loaded_of_neg {x : Double} (h : x.exponent < 0) : x.loaded = x.multiplied.settled :=
  if_neg (not_le.mpr h)

theorem places_loaded_le (x : Double) : x.loaded.places ≤ 28 := by
  unfold loaded
  split
  · exact Nat.zero_le 28
  · exact x.multiplied.settled_le.2

theorem toDecimal?_eq_none_iff {x : Double} :
    x.toDecimal? = none ↔ Decimal.bound ≤ x.loaded.coefficient := by
  rw [toDecimal?_eq, Decimal.ofParts?_eq_none_iff, natAbs_signed]
  exact or_iff_left (not_lt.mpr x.places_loaded_le)

theorem map_toDecimal? {x : Double} (h : x.loaded.coefficient < Decimal.bound) :
    x.toDecimal?.map Decimal.toRat
      = some (if x.negative then -x.loaded.toRat else x.loaded.toRat) := by
  have hvalue : x.loaded.toRat = x.loaded.coefficient / Nat.pow 10 x.loaded.places := by
    rw [Approximation.toRat, Decimal.cast_pow_ten]
  rw [toDecimal?_eq, Decimal.ofParts?_map_toRat (by rwa [natAbs_signed]) x.places_loaded_le, hvalue]
  unfold Decimal.valueOf signed
  split
  · rw [Int.cast_neg, neg_div]
    rfl
  · rfl

theorem coefficient_loaded_lt {x : Double} (h : x.exponent < 0)
    (hbits : x.significand < Decimal.bound) : x.loaded.coefficient < Decimal.bound := by
  obtain ⟨-, -, hbound⟩ := Approximation.ofFives_bounds (le_refl x.exponent.natAbs) hbits
  rw [loaded_of_neg h]
  exact x.multiplied.settled_le.1.trans_lt hbound

theorem coefficient_loaded {x : Double} (h : 0 ≤ x.exponent) :
    (x.loaded.coefficient : Rat) = x.magnitude := by
  obtain ⟨n, hn⟩ := Int.eq_ofNat_of_zero_le h
  rw [loaded, if_pos h, magnitude, hn, zpow_natCast, Nat.cast_mul]
  exact congrArg _ (Nat.cast_pow 2 n)

end Double

namespace Decimal

open Double

variable {a : Decimal}

/-- What an amount is loaded as after it was stored; none if it is too large for that. -/
def reloaded? (a : Decimal) : Option Decimal := (ofDecimal a).toDecimal?

/-- An amount comes back as the amount that it was. -/
def Survives (a : Decimal) : Prop := a.reloaded?.map toRat = some a.toRat

instance : Decidable a.Survives := inferInstanceAs (Decidable (_ = _))

theorem abs_toRat (a : Decimal) : |a.toRat| = (a.coefficient.natAbs : Rat) / 10 ^ a.places := by
  rw [toRat, abs_div, Nat.cast_natAbs, Int.cast_abs, Nat.abs_cast, cast_pow_ten]

theorem abs_toRat_le (a : Decimal) : |a.toRat| ≤ a.coefficient.natAbs := by
  rw [abs_toRat]
  exact div_le_self (Nat.cast_nonneg _) (one_le_pow₀ (by norm_num))

theorem toRat_eq_abs (a : Decimal) :
    a.toRat = if a.coefficient < 0 then -|a.toRat| else |a.toRat| := by
  have hten : (0 : Rat) < Nat.pow 10 a.places := by exact_mod_cast pow_ten_pos a.places
  split
  · next h =>
    have hneg : a.toRat ≤ 0 := div_nonpos_of_nonpos_of_nonneg (by exact_mod_cast h.le) hten.le
    rw [abs_of_nonpos hneg, neg_neg]
  · next h =>
    have hnonneg : 0 ≤ a.toRat := div_nonneg (by exact_mod_cast not_lt.mp h) hten.le
    rw [abs_of_nonneg hnonneg]

theorem natAbs_pos (h : ¬ a.isZero) : 0 < a.coefficient.natAbs := by
  rw [Int.natAbs_pos]
  simpa [isZero] using h

/-- Exponent of the last bit that an amount is stored with, before a carry. -/
def lastBit (a : Decimal) : Int := lastExponent a.coefficient.natAbs (Nat.pow 10 a.places)

theorem rounds_ofDecimal (h : ¬ a.isZero) : (ofDecimal a).Rounds |a.toRat| a.lastBit := by
  have hrounds := rounds_ofQuotient (decide (a.coefficient < 0)) (natAbs_pos h)
    (pow_ten_pos a.places)
  rw [cast_pow_ten, ← abs_toRat] at hrounds
  unfold ofDecimal
  rwa [if_neg h]

theorem magnitude_ofDecimal (h : ¬ a.isZero) : (ofDecimal a).magnitude
    = roundedAt a.coefficient.natAbs (Nat.pow 10 a.places) a.lastBit * 2 ^ a.lastBit := by
  unfold ofDecimal
  rw [if_neg h]
  exact magnitude_carry _ _ _

theorem negative_ofDecimal (h : ¬ a.isZero) :
    (ofDecimal a).negative = decide (a.coefficient < 0) := by
  unfold ofDecimal
  rw [if_neg h]
  exact negative_carry _ _ _

theorem reloaded?_of_isZero (h : a.isZero) : a.reloaded?.map toRat = some 0 := by
  unfold reloaded? ofDecimal
  rw [if_pos h]
  decide +kernel

/-- Amounts of at most fifteen digits, except for those with a fraction in a crowded binade. -/
structure Durable (a : Decimal) : Prop where
  digits : a.coefficient.natAbs < 10 ^ 15
  apart : (∃ w : Nat, |a.toRat| = w) ∨ ∀ w ∈ crowded, |a.toRat| < 2 ^ w ∨ 2 ^ (w + 1) ≤ |a.toRat|

theorem Durable.survives (h : a.Durable) : a.Survives := by
  unfold Survives
  by_cases hzero : a.isZero
  · rw [reloaded?_of_isZero hzero, toRat_eq_zero_iff.mpr hzero]
  have hrounds := rounds_ofDecimal hzero
  have hneg : a.lastBit + 52 < 50 := by
    have hdigits : (a.coefficient.natAbs : Rat) < 1000000000000000 := by exact_mod_cast h.digits
    exact hrounds.exponent_lt (a.abs_toRat_le.trans_lt (hdigits.trans (by norm_num)))
  have hapart := h.apart.imp_left fun ⟨w, hw⟩ => hrounds.magnitude_eq_of_whole (by omega) hw
  rw [abs_toRat] at hrounds hapart
  obtain ⟨hexponent, hvalue⟩ :=
    hrounds.settled_eq (natAbs_pos hzero) h.digits a.places_le hapart
  have hroom := coefficient_loaded_lt hexponent (hrounds.significand_lt.trans (by decide))
  rw [reloaded?, map_toDecimal? hroom, loaded_of_neg hexponent, hvalue, negative_ofDecimal hzero,
    ← abs_toRat]
  simp only [decide_eq_true_eq, ← toRat_eq_abs]

/-- In a crowded binade seven digits may be too many. -/
example : ¬ (Decimal.ofParts 4170029 3).Survives := by decide +kernel

theorem abs_toRat_lt_bound (a : Decimal) : |a.toRat| < 2 ^ (96 : Int) := by
  have hbound : (a.coefficient.natAbs : Rat) < bound := by exact_mod_cast a.coefficient_lt
  exact a.abs_toRat_le.trans_lt (hbound.trans_le (by norm_num [bound]))

/-- From this value on, amounts are stored as two to the power 96, which no decimal is. -/
def loadLimit : Rat := 2 ^ 96 - 2 ^ 42

theorem bound_le_magnitude_iff (h : ¬ a.isZero) :
    (2 : Rat) ^ 96 ≤ (ofDecimal a).magnitude ↔ loadLimit ≤ |a.toRat| := by
  unfold loadLimit
  have hrounds := rounds_ofDecimal h
  have he := hrounds.exponent_lt a.abs_toRat_lt_bound
  constructor
  · intro hlarge
    have hstep : (2 : Rat) ^ a.lastBit ≤ 2 ^ (43 : Int) :=
      zpow_le_zpow_right₀ one_le_two (by omega)
    have habove := (abs_le.mp hrounds.error_le).2
    norm_num at hstep hlarge ⊢
    linarith
  · intro hlarge
    have hexponent : 95 < a.lastBit + 53 :=
      hrounds.lt_exponent (le_trans (by norm_num) hlarge)
    have h43 : a.lastBit = 43 := by omega
    have hd := pow_ten_pos a.places
    have hquotient : 2 ^ 96 * Nat.pow 10 a.places
        ≤ a.coefficient.natAbs + 2 ^ 42 * Nat.pow 10 a.places := by
      rw [abs_toRat, ← cast_pow_ten, le_div_iff₀ (by exact_mod_cast hd), sub_mul,
        tsub_le_iff_right] at hlarge
      exact_mod_cast hlarge
    have hsignificand : 2 ^ 53 ≤ roundedAt a.coefficient.natAbs (Nat.pow 10 a.places) 43 := by
      refine le_roundQuotient (Nat.mul_pos hd (power_pos 43).1) (by decide) ?_
      change 2 * 2 ^ 53 * (Nat.pow 10 a.places * 2 ^ 43)
        ≤ 2 * (a.coefficient.natAbs * 1) + Nat.pow 10 a.places * 2 ^ 43
      omega
    rw [magnitude_ofDecimal h, h43]
    calc (2 : Rat) ^ 96
      _ = (2 ^ 53 : Nat) * 2 ^ (43 : Int) := by norm_num
      _ ≤ _ := mul_le_mul_of_nonneg_right (by exact_mod_cast hsignificand) (by positivity)

theorem reloaded?_eq_none_iff : a.reloaded? = none ↔ loadLimit ≤ |a.toRat| := by
  by_cases hzero : a.isZero
  · have hsome := reloaded?_of_isZero hzero
    rw [toRat_eq_zero_iff.mpr hzero, abs_zero]
    exact iff_of_false (fun h => by simp [h] at hsome) (by norm_num [loadLimit])
  have hrounds := rounds_ofDecimal hzero
  rw [reloaded?, toDecimal?_eq_none_iff]
  by_cases hneg : (ofDecimal a).exponent < 0
  · have hroom := coefficient_loaded_lt hneg (hrounds.significand_lt.trans (by decide))
    have hcases := hrounds.exponent
    have hsmall : |a.toRat| < 2 ^ (53 : Int) :=
      hrounds.quotient_lt.trans_le (zpow_le_zpow_right₀ one_le_two (by omega))
    exact iff_of_false (not_le.mpr hroom)
      (not_le.mpr (hsmall.trans_le (by norm_num [loadLimit])))
  · have hbound : (2 : Rat) ^ 96 = bound := by norm_num [bound]
    rw [← bound_le_magnitude_iff hzero, ← coefficient_loaded (not_lt.mp hneg), hbound, Nat.cast_le]

end Decimal

end Docket
