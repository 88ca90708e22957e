import Mathlib.Tactic.FieldSimp
import Mathlib.Algebra.Order.Field.Power
import Docket.Decimal.Double
import Docket.Proofs.Rounding

/-! # Binary numbers and the decimals they are loaded as

How far the binary number that an amount is stored as can be from the amount, and how far the
steps from a binary number to a decimal can lead away from it. A step that takes a place away
rounds once more, so the errors of all of them add up to at most five ninths of the last place
that is left.
-/

namespace Docket

namespace Double

theorem power_two (e : Int) : ((power 2 e).1 : Rat) / (power 2 e).2 = 2 ^ e := by
  unfold power
  split
  · next h =>
    obtain ⟨n, rfl⟩ := Int.eq_ofNat_of_zero_le h
    simp [zpow_natCast]
  · next h =>
    obtain ⟨n, rfl⟩ : ∃ n : Nat, e = -n := ⟨e.natAbs, by omega⟩
    simp [zpow_natCast]

theorem power_pos (e : Int) : 0 < (power 2 e).1 ∧ 0 < (power 2 e).2 := by
  unfold power
  split
  · exact ⟨Nat.pow_pos two_pos, one_pos⟩
  · exact ⟨one_pos, Nat.pow_pos two_pos⟩

theorem power_le_iff {n d : Nat} (hd : 0 < d) (e : Int) :
    (2 : Rat) ^ e ≤ n / d ↔ d * (power 2 e).1 ≤ n * (power 2 e).2 := by
  obtain ⟨hp, hq⟩ := power_pos e
  rw [← power_two, div_le_div_iff₀ (by exact_mod_cast hq) (by exact_mod_cast hd)]
  rw [mul_comm d]
  exact_mod_cast Iff.rfl

/-- The last of 53 significant bits stands where the first one is that of the quotient. -/
theorem lastExponent_spec {n d : Nat} (hn : 0 < n) (hd : 0 < d) :
    (2 : Rat) ^ (lastExponent n d + 52) ≤ n / d ∧ (n : Rat) / d < 2 ^ (lastExponent n d + 53) := by
  have hd' : (0 : Rat) < d := Nat.cast_pos.mpr hd
  have hlow : (2 : Rat) ^ ((n.log2 : Int) - d.log2 - 1) < n / d := by
    rw [lt_div_iff₀ hd']
    have h1 : (d : Rat) < 2 ^ ((d.log2 : Int) + 1) := by exact_mod_cast Nat.lt_log2_self
    have h2 : (2 : Rat) ^ (n.log2 : Int) ≤ n := by exact_mod_cast Nat.log2_self_le hn.ne'
    calc (2 : Rat) ^ ((n.log2 : Int) - d.log2 - 1) * d
      _ < 2 ^ ((n.log2 : Int) - d.log2 - 1) * 2 ^ ((d.log2 : Int) + 1) := by gcongr
      _ = 2 ^ (n.log2 : Int) := by rw [← zpow_add₀ two_ne_zero]; congr 1; ring
      _ ≤ n := h2
  have hhigh : (n : Rat) / d < 2 ^ ((n.log2 : Int) - d.log2 + 1) := by
    rw [div_lt_iff₀ hd']
    have h1 : (n : Rat) < 2 ^ ((n.log2 : Int) + 1) := by exact_mod_cast Nat.lt_log2_self
    have h2 : (2 : Rat) ^ (d.log2 : Int) ≤ d := by exact_mod_cast Nat.log2_self_le hd.ne'
    calc (n : Rat)
      _ < 2 ^ ((n.log2 : Int) + 1) := h1
      _ = 2 ^ ((n.log2 : Int) - d.log2 + 1) * 2 ^ (d.log2 : Int) := by
        rw [← zpow_add₀ two_ne_zero]; congr 1; ring
      _ ≤ 2 ^ ((n.log2 : Int) - d.log2 + 1) * d := by gcongr
  have hmid := power_le_iff (n := n) hd ((n.log2 : Int) - d.log2)
  unfold lastExponent
  dsimp only
  split
  · next h =>
    rw [show (n.log2 : Int) - d.log2 - 52 + 52 = n.log2 - d.log2 by ring,
      show (n.log2 : Int) - d.log2 - 52 + 53 = n.log2 - d.log2 + 1 by ring]
    exact ⟨hmid.mpr h, hhigh⟩
  · next h =>
    rw [show (n.log2 : Int) - d.log2 - 53 + 52 = n.log2 - d.log2 - 1 by ring,
      show (n.log2 : Int) - d.log2 - 53 + 53 = n.log2 - d.log2 by ring]
    exact ⟨hlow.le, lt_of_not_ge (mt hmid.mp h)⟩

def magnitude (x : Double) : Rat := x.significand * 2 ^ x.exponent

/-- The significand of a quotient whose last bit is worth `2 ^ e`. -/
def roundedAt (n d : Nat) (e : Int) : Nat :=
  Decimal.roundQuotient (n * (power 2 e).2) (d * (power 2 e).1)

/-- A significand that has been rounded up to 54 bits makes the exponent greater. -/
def carry (negative : Bool) (m : Nat) (e : Int) : Double :=
  if m = 2 * leastSignificand then ⟨negative, leastSignificand, e + 1⟩ else ⟨negative, m, e⟩

theorem ofQuotient_eq (negative : Bool) (n d : Nat) :
    ofQuotient negative n d
      = carry negative (roundedAt n d (lastExponent n d)) (lastExponent n d) := rfl

theorem magnitude_carry (negative : Bool) (m : Nat) (e : Int) :
    (carry negative m e).magnitude = m * 2 ^ e := by
  unfold carry magnitude
  split
  · next h =>
    rw [h, zpow_add_one₀ two_ne_zero]
    push_cast
    ring
  · rfl

theorem leastSignificand_eq : (leastSignificand : Rat) = 2 ^ 52 := by norm_num [leastSignificand]

variable {n d : Nat} {e : Int}

theorem abs_roundedAt_sub_le (hd : 0 < d) (e : Int) :
    |(roundedAt n d e : Rat) - n / d / 2 ^ e| ≤ 1 / 2 := by
  obtain ⟨hp, hq⟩ := power_pos e
  have hscaled : ((n * (power 2 e).2 : Nat) : Rat) / (d * (power 2 e).1 : Nat) = n / d / 2 ^ e := by
    rw [← power_two]
    have hp' : ((power 2 e).1 : Rat) ≠ 0 := by exact_mod_cast hp.ne'
    have hq' : ((power 2 e).2 : Rat) ≠ 0 := by exact_mod_cast hq.ne'
    have hd' : (d : Rat) ≠ 0 := by exact_mod_cast hd.ne'
    push_cast
    field_simp
  rw [← hscaled]
  exact (Decimal.nearest_roundQuotient _ (Nat.mul_pos hd hp)).near

theorem roundedAt_bounds (hd : 0 < d) (hlow : (2 : Rat) ^ (e + 52) ≤ n / d)
    (hhigh : (n : Rat) / d < 2 ^ (e + 53)) :
    leastSignificand ≤ roundedAt n d e ∧ roundedAt n d e ≤ 2 * leastSignificand := by
  have hpos : (0 : Rat) < 2 ^ e := by positivity
  have hlow' : (leastSignificand : Rat) ≤ n / d / 2 ^ e := by
    rw [leastSignificand_eq, le_div_iff₀ hpos, ← zpow_natCast, ← zpow_add₀ two_ne_zero, add_comm]
    exact hlow
  have hhigh' : (n : Rat) / d / 2 ^ e < 2 * leastSignificand := by
    rw [leastSignificand_eq, ← pow_succ', div_lt_iff₀ hpos, ← zpow_natCast,
      ← zpow_add₀ two_ne_zero, add_comm]
    exact hhigh
  obtain ⟨h1, h2⟩ := abs_le.mp (abs_roundedAt_sub_le (n := n) hd e)
  constructor
  · have hlt : (leastSignificand : Rat) < roundedAt n d e + 1 := by linarith
    exact Nat.lt_succ_iff.mp (by exact_mod_cast hlt)
  · have hlt : (roundedAt n d e : Rat) < 2 * leastSignificand + 1 := by linarith
    exact Nat.lt_succ_iff.mp (by exact_mod_cast hlt)

/-- A number has 53 significant bits, the last of them worth `2 ^ e`, and no other of its kind is
closer to `q`. -/
structure Rounds (x : Double) (q : Rat) (e : Int) : Prop where
  le_quotient : (2 : Rat) ^ (e + 52) ≤ q
  quotient_lt : q < (2 : Rat) ^ (e + 53)
  le_magnitude : (2 : Rat) ^ (e + 52) ≤ x.magnitude
  error_le : |x.magnitude - q| ≤ 2 ^ e / 2
  significand_lt : x.significand < 2 * leastSignificand
  exponent : x.exponent = e ∨ x.exponent = e + 1

theorem rounds_ofQuotient (negative : Bool) (hn : 0 < n) (hd : 0 < d) :
    (ofQuotient negative n d).Rounds (n / d) (lastExponent n d) := by
  obtain ⟨hlow, hhigh⟩ := lastExponent_spec hn hd
  rw [ofQuotient_eq]
  generalize lastExponent n d = e at hlow hhigh ⊢
  have hpos : (0 : Rat) < 2 ^ e := by positivity
  obtain ⟨hge, hle⟩ := roundedAt_bounds hd hlow hhigh
  have hround := abs_roundedAt_sub_le (n := n) hd e
  generalize roundedAt n d e = m at hge hle hround ⊢
  refine ⟨hlow, hhigh, ?_, ?_, ?_, ?_⟩
  · rw [magnitude_carry, add_comm, zpow_add₀ two_ne_zero]
    refine mul_le_mul_of_nonneg_right ?_ hpos.le
    exact_mod_cast hge
  · have hscale : (m : Rat) * 2 ^ e - n / d = (m - n / d / 2 ^ e) * 2 ^ e := by
      rw [sub_mul, div_mul_cancel₀ _ hpos.ne']
    rw [magnitude_carry, hscale, abs_mul, abs_of_pos hpos]
    linarith [mul_le_mul_of_nonneg_right hround hpos.le]
  · unfold carry
    split
    · exact (by decide : leastSignificand < 2 * leastSignificand)
    · next hne => exact lt_of_le_of_ne hle hne
  · unfold carry
    split
    · exact Or.inr rfl
    · exact Or.inl rfl

namespace Approximation

def toRat (a : Approximation) : Rat := a.coefficient / 10 ^ a.places

def fives (k n c : Nat) : Rat := c * 5 ^ n / 10 ^ k

/-- What is left of a number of which the last bit of 96 is lost. -/
def kept : Rat := 1 - 5 / Decimal.bound

theorem fives_five_mul (k n c : Nat) : fives k n (5 * c) = fives k (n + 1) c := by
  unfold fives
  push_cast
  ring

theorem fives_half {k n c : Nat} (h : c % 2 = 0 ∨ Decimal.bound ≤ 5 * c) :
    kept * fives (k + 1) (n + 1) c ≤ fives k n (c / 2) ∧
      fives k n (c / 2) ≤ fives (k + 1) (n + 1) c := by
  have hpos : (0 : Rat) ≤ 5 ^ n / 10 ^ k := by positivity
  have hwhole : fives (k + 1) (n + 1) c = c / 2 * (5 ^ n / 10 ^ k) := by
    unfold fives
    rw [pow_succ, pow_succ]
    ring
  have hhalf : fives k n (c / 2) = (c / 2 : Nat) * (5 ^ n / 10 ^ k) := mul_div_assoc _ _ _
  have hc : (c : Rat) / 2 = (c / 2 : Nat) + ((c % 2 : Nat) : Rat) / 2 := cast_div_eq c two_pos
  rw [hwhole, hhalf, ← mul_assoc]
  constructor
  · refine mul_le_mul_of_nonneg_right ?_ hpos
    rcases h with heven | hlarge
    · rw [heven] at hc
      have hb : (0 : Rat) ≤ 5 / Decimal.bound := by positivity
      have hc0 : (0 : Rat) ≤ c / 2 := by positivity
      have hloss := mul_nonneg hb hc0
      unfold kept
      linarith
    · have hb : (Decimal.bound : Rat) ≤ 5 * c := by exact_mod_cast hlarge
      have hb0 : (0 : Rat) < Decimal.bound := by norm_num [Decimal.bound]
      have hloss : 1 / 2 ≤ 5 / Decimal.bound * (c / 2 : Rat) := by
        rw [div_mul_div_comm, div_le_div_iff₀ two_pos (by positivity)]
        linarith
      have hmod : ((c % 2 : Nat) : Rat) ≤ 1 := by exact_mod_cast (by omega : c % 2 ≤ 1)
      unfold kept
      linarith
  · refine mul_le_mul_of_nonneg_right ?_ hpos
    have hmod : (0 : Rat) ≤ (c % 2 : Nat) := by positivity
    linarith

theorem kept_bounds : 0 ≤ kept ∧ kept ≤ 1 := by
  norm_num [kept, Decimal.bound]

/-- Multiplying fives in loses little, and never makes the number greater. -/
theorem ofFives_bounds : ∀ {n k c : Nat}, n ≤ k → c < Decimal.bound →
    kept ^ n * fives k n c ≤ (ofFives k n c).toRat ∧ (ofFives k n c).toRat ≤ fives k n c ∧
      (ofFives k n c).coefficient < Decimal.bound
  | 0, k, c, _, hc => by
    have hvalue : (ofFives k 0 c).toRat = fives k 0 c := by simp [ofFives, toRat, fives]
    rw [hvalue, pow_zero, one_mul]
    exact ⟨le_rfl, le_rfl, hc⟩
  | n + 1, k, c, hk, hc => by
    obtain ⟨h0, h1⟩ := kept_bounds
    have hpow : 0 ≤ kept ^ n := pow_nonneg h0 n
    unfold ofFives
    split
    · next h =>
      obtain ⟨k, rfl⟩ : ∃ m, k = m + 1 := ⟨k - 1, by omega⟩
      obtain ⟨hlow, hhigh⟩ := fives_half (k := k) (n := n) h
      obtain ⟨ihlow, ihhigh, ihbound⟩ := ofFives_bounds (n := n) (k := k) (c := c / 2) (by omega)
        (by omega)
      refine ⟨?_, ihhigh.trans hhigh, ihbound⟩
      calc kept ^ (n + 1) * fives (k + 1) (n + 1) c
        _ = kept ^ n * (kept * fives (k + 1) (n + 1) c) := by ring
        _ ≤ kept ^ n * fives k n (c / 2) := mul_le_mul_of_nonneg_left hlow hpow
        _ ≤ _ := ihlow
    · next h =>
      obtain ⟨ihlow, ihhigh, ihbound⟩ := ofFives_bounds (n := n) (k := k) (c := 5 * c) (by omega)
        (by omega)
      rw [fives_five_mul] at ihlow ihhigh
      refine ⟨le_trans ?_ ihlow, ihhigh, ihbound⟩
      have hfives : 0 ≤ fives k (n + 1) c := by unfold fives; positivity
      refine mul_le_mul_of_nonneg_right ?_ hfives
      rw [pow_succ]
      exact mul_le_of_le_one_right hpow h1

/-- A value that an approximation is closer to than five ninths of its last place. -/
def Near (a : Approximation) (v : Rat) : Prop := |(a.coefficient : Rat) - v * 10 ^ a.places| ≤ 5 / 9

variable {a : Approximation} {v : Rat}

theorem near_self (a : Approximation) : a.Near a.toRat := by
  have hpos : (10 : Rat) ^ a.places ≠ 0 := by positivity
  unfold Near toRat
  rw [div_mul_cancel₀ _ hpos, sub_self, abs_zero]
  norm_num

theorem abs_shorten_sub_le (a : Approximation) :
    |(a.shorten.coefficient : Rat) - a.coefficient / 10| ≤ 1 / 2 := by
  have hc : (a.coefficient : Rat) / 10
      = (a.coefficient / 10 : Nat) + ((a.coefficient % 10 : Nat) : Rat) / 10 :=
    cast_div_eq a.coefficient (by decide)
  rw [hc, abs_le]
  unfold shorten
  dsimp only
  by_cases h : a.coefficient % 10 < 5
  · have h4 : ((a.coefficient % 10 : Nat) : Rat) ≤ 4 := by
      exact_mod_cast (by omega : a.coefficient % 10 ≤ 4)
    have h0 : (0 : Rat) ≤ (a.coefficient % 10 : Nat) := by positivity
    rw [if_pos h, Nat.add_zero]
    constructor <;> linarith
  · have h5 : (5 : Rat) ≤ (a.coefficient % 10 : Nat) := by
      exact_mod_cast (by omega : 5 ≤ a.coefficient % 10)
    have h9 : ((a.coefficient % 10 : Nat) : Rat) ≤ 9 := by
      exact_mod_cast (by omega : a.coefficient % 10 ≤ 9)
    rw [if_neg h]
    push_cast
    constructor <;> linarith

/-- A tenth of five ninths and the half of the new rounding are five ninths again. -/
theorem Near.shorten (h : a.Near v) (hplaces : 0 < a.places) : a.shorten.Near v := by
  obtain ⟨n, hn⟩ : ∃ n, a.places = n + 1 := ⟨a.places - 1, by omega⟩
  have hshort : a.shorten.places = n := by
    change a.places - 1 = n
    omega
  unfold Near at h ⊢
  rw [hn, pow_succ] at h
  rw [hshort]
  obtain ⟨h1, h2⟩ := abs_le.mp h
  obtain ⟨h3, h4⟩ := abs_le.mp (abs_shorten_sub_le a)
  rw [abs_le]
  constructor <;> linarith

theorem Near.dropPlaces (hv : 86 / 9 < v * 10 ^ 29) : ∀ {n : Nat} {a : Approximation}, a.Near v →
    a.places = 28 + n → (a.dropPlaces n).Near v ∧ (a.dropPlaces n).places = 28
  | 0, _, h, hplaces => ⟨h, hplaces⟩
  | n + 1, a, h, hplaces => by
    have hlarge : ¬ a.coefficient < 10 := by
      intro hsmall
      have hpow : (1 : Rat) ≤ 10 ^ n := one_le_pow₀ (by norm_num)
      have hv0 : 0 < v * 10 ^ 29 := lt_trans (by norm_num) hv
      have hle := mul_le_mul_of_nonneg_left hpow hv0.le
      have hsplit : v * 10 ^ 29 * 10 ^ n = v * 10 ^ a.places := by
        rw [mul_assoc, ← pow_add, hplaces]
        congr 2
        omega
      have hcoefficient : (a.coefficient : Rat) ≤ 9 := by
        exact_mod_cast (by omega : a.coefficient ≤ 9)
      obtain ⟨h1, -⟩ := abs_le.mp h
      linarith
    rw [Approximation.dropPlaces, if_neg hlarge]
    refine Near.dropPlaces hv (h.shorten (by omega)) ?_
    change a.places - 1 = 28 + n
    omega

theorem Near.coefficient_lt {p : Nat} (h : a.Near v) (hplaces : a.places ≤ p) (hv : 0 ≤ v)
    (hp : v * 10 ^ p + 5 / 9 < leastSignificand) : a.coefficient < leastSignificand := by
  have hpow : v * 10 ^ a.places ≤ v * 10 ^ p :=
    mul_le_mul_of_nonneg_left (pow_le_pow_right₀ (by norm_num) hplaces) hv
  obtain ⟨-, h2⟩ := abs_le.mp h
  have hlt : (a.coefficient : Rat) < leastSignificand := by linarith
  exact_mod_cast hlt

theorem Near.dropBits {p : Nat} (hv : 0 ≤ v) (hp : v * 10 ^ p + 5 / 9 < leastSignificand) :
    ∀ {n : Nat} {a : Approximation}, a.Near v → a.places = n → p ≤ n →
      (a.dropBits n).Near v ∧ p ≤ (a.dropBits n).places ∧ (a.dropBits n).places ≤ n ∧
        (a.dropBits n).coefficient < leastSignificand
  | 0, a, h, hplaces, hle =>
    ⟨h, hle.trans hplaces.ge, hplaces.le, h.coefficient_lt (by omega) hv hp⟩
  | n + 1, a, h, hplaces, hle => by
    unfold Approximation.dropBits
    split
    · next hlt => exact ⟨h, hplaces ▸ hle, hplaces.le, hlt⟩
    · next hlarge =>
      have hlt : p < a.places := by
        by_contra hnot
        exact hlarge (h.coefficient_lt (by omega) hv hp)
      have hshort : a.shorten.places = n := by
        change a.places - 1 = n
        omega
      obtain ⟨hnear, hge, hend, hbits⟩ :=
        Near.dropBits hv hp (h.shorten (by omega)) hshort (by omega)
      exact ⟨hnear, hge, by omega, hbits⟩

theorem coefficient_shorten_le (a : Approximation) : a.shorten.coefficient ≤ a.coefficient := by
  change a.coefficient / 10 + (if a.coefficient % 10 < 5 then 0 else 1) ≤ a.coefficient
  split <;> omega

theorem dropPlaces_le : ∀ (n : Nat) (a : Approximation),
    (a.dropPlaces n).coefficient ≤ a.coefficient ∧ (a.dropPlaces n).places ≤ a.places - n
  | 0, a => ⟨le_rfl, le_rfl⟩
  | n + 1, a => by
    unfold dropPlaces
    split
    · exact ⟨Nat.zero_le _, Nat.zero_le _⟩
    · obtain ⟨hcoefficient, hplaces⟩ := dropPlaces_le n a.shorten
      have hshort : a.shorten.places = a.places - 1 := rfl
      exact ⟨hcoefficient.trans a.coefficient_shorten_le, by omega⟩

theorem dropBits_le : ∀ (n : Nat) (a : Approximation),
    (a.dropBits n).coefficient ≤ a.coefficient ∧ (a.dropBits n).places ≤ a.places
  | 0, a => ⟨le_rfl, le_rfl⟩
  | n + 1, a => by
    unfold dropBits
    split
    · exact ⟨le_rfl, le_rfl⟩
    · obtain ⟨hcoefficient, hplaces⟩ := dropBits_le n a.shorten
      have hshort : a.shorten.places = a.places - 1 := rfl
      exact ⟨hcoefficient.trans a.coefficient_shorten_le, by omega⟩

theorem dropZeros_spec : ∀ {n : Nat} {a : Approximation}, n ≤ a.places →
    (a.dropZeros n).toRat = a.toRat ∧ (a.dropZeros n).places ≤ a.places ∧
      (a.dropZeros n).coefficient ≤ a.coefficient
  | 0, a, _ => ⟨rfl, le_rfl, le_rfl⟩
  | n + 1, a, hn => by
    unfold Approximation.dropZeros
    split
    · next h =>
      have hplaces : a.shorten.places + 1 = a.places := by
        change a.places - 1 + 1 = a.places
        omega
      have hcoefficient : a.shorten.coefficient * 10 = a.coefficient := by
        change (a.coefficient / 10 + if a.coefficient % 10 < 5 then 0 else 1) * 10 = a.coefficient
        rw [if_pos (by omega)]
        omega
      have hvalue : a.shorten.toRat = a.toRat := by
        unfold toRat
        rw [← hplaces, ← hcoefficient, pow_succ]
        push_cast
        rw [mul_div_mul_right _ _ (by norm_num)]
      obtain ⟨ihvalue, ihplaces, ihcoefficient⟩ :=
        dropZeros_spec (n := n) (a := a.shorten) (by omega)
      exact ⟨ihvalue.trans hvalue, by omega, by omega⟩
    · exact ⟨rfl, le_rfl, le_rfl⟩

/-- What is loaded is within the limits for decimals if it was without places. -/
theorem settled_le (a : Approximation) :
    a.settled.coefficient ≤ a.coefficient ∧ a.settled.places ≤ 28 := by
  obtain ⟨hcoefficient, hplaces⟩ := dropPlaces_le (a.places - 28) a
  unfold settled
  dsimp only
  generalize a.dropPlaces (a.places - 28) = b at hcoefficient hplaces ⊢
  obtain ⟨hbits, hbits'⟩ := dropBits_le b.places b
  generalize b.dropBits b.places = c at hbits hbits' ⊢
  obtain ⟨-, hzeros, hzeros'⟩ := dropZeros_spec (a := c) le_rfl
  exact ⟨by omega, by omega⟩

end Approximation

end Double

end Docket
