import Docket.Proofs.Amounts
import Docket.Proofs.Rounding
import Docket.Lifecycle.Transition

/-! # Magnitudes

A number whose whole part fits is a decimal after rounding, and rounding moves it by at most one
half. So the magnitudes of the operands bound the result of each step, and arithmetic on amounts as
large as the store has room for stays in range over thousands of lines.
-/

namespace Docket

namespace Decimal

def greatest : Rat := bound - 1

/-- A decimal that is a number rounded to some number of places. -/
def Close (d : Decimal) (q : Rat) : Prop := |d.toRat - q| ≤ 1 / 2

variable {a b d : Decimal} {z : Int} {s k : Nat} {q m : Rat}

theorem Close.abs_le (h : Close d q) (hq : |q| ≤ m) : |d.toRat| ≤ m + 1 / 2 := by
  calc |d.toRat|
    _ = |d.toRat - q + q| := by rw [sub_add_cancel]
    _ ≤ |d.toRat - q| + |q| := abs_add_le _ _
    _ ≤ 1 / 2 + m := add_le_add h hq
    _ = m + 1 / 2 := add_comm _ _

theorem close_self (d : Decimal) : Close d d.toRat := by
  rw [Close, sub_self, abs_zero]
  norm_num

theorem abs_valueOf_roundDiv_sub_le (z : Int) (hk : k ≤ s) :
    |valueOf (roundDiv z (Nat.pow 10 (s - k))) k - valueOf z s| ≤ 1 / 2 := by
  have hpos : (1 : Rat) ≤ Nat.pow 10 k := by exact_mod_cast pow_ten_pos k
  have hpow : (Nat.pow 10 s : Rat) = Nat.pow 10 (s - k) * Nat.pow 10 k := by
    exact_mod_cast (congrArg (Nat.pow 10) (Nat.sub_add_cancel hk)).symm.trans (pow_ten_add _ _)
  have habs : |(Nat.pow 10 k : Rat)| = Nat.pow 10 k := abs_of_pos (by linarith)
  have hnear := (nearest_roundDiv z (pow_ten_pos (s - k))).near
  calc |valueOf (roundDiv z (Nat.pow 10 (s - k))) k - valueOf z s|
    _ = |(roundDiv z (Nat.pow 10 (s - k)) : Rat) - z / (Nat.pow 10 (s - k) : Nat)|
        / Nat.pow 10 k := by
      rw [valueOf, valueOf, hpow, ← div_div, ← sub_div, abs_div, habs]
    _ ≤ 1 / 2 := by
      rw [div_le_iff₀ (by linarith)]
      linarith

theorem valueOf_zero (z : Int) : valueOf z 0 = z := by
  simp [valueOf]

theorem natAbs_lt_bound (hz : |(z : Rat) - q| < 1) (hq : |q| ≤ greatest) : z.natAbs < bound := by
  have habs : (z.natAbs : Rat) < bound := by
    calc (z.natAbs : Rat)
      _ = |(z : Rat) - q + q| := by rw [sub_add_cancel, Nat.cast_natAbs, Int.cast_abs]
      _ ≤ |(z : Rat) - q| + |q| := abs_add_le _ _
      _ < 1 + (bound - 1) := add_lt_add_of_lt_of_le hz hq
      _ = bound := add_sub_cancel _ _
  exact_mod_cast habs

/-- A number whose whole part fits is rounded to a decimal, with as many places as it has room
for. -/
theorem exists_fitWithin?_close (h : |valueOf z s| ≤ greatest) (hk : k ≤ s) (hk' : k ≤ 28) :
    ∃ d, fitWithin? z s k = some d ∧ Close d (valueOf z s) := by
  have hclose (d : Decimal) (i : Nat) (hi : i ≤ s)
      (hd : ofParts? (roundDiv z (Nat.pow 10 (s - i))) i = some d) : Close d (valueOf z s) := by
    obtain ⟨hcoefficient, hplaces⟩ := ofParts?_eq_some_iff.mp hd
    rw [Close, toRat_eq_valueOf, hcoefficient, hplaces]
    exact abs_valueOf_roundDiv_sub_le z hi
  induction k with
  | zero =>
    have hround := abs_valueOf_roundDiv_sub_le z (Nat.zero_le s)
    rw [valueOf_zero, Nat.sub_zero] at hround
    have hin := natAbs_lt_bound (lt_of_le_of_lt hround one_half_lt_one) h
    obtain ⟨d, hd, -⟩ := Option.map_eq_some_iff.mp (ofParts?_map_toRat hin (Nat.zero_le 28))
    exact ⟨d, hd, hclose d 0 (Nat.zero_le s) hd⟩
  | succ k ih =>
    unfold fitWithin?
    cases hd : ofParts? (roundDiv z (Nat.pow 10 (s - (k + 1)))) (k + 1) with
    | some d => exact ⟨d, rfl, hclose d (k + 1) hk hd⟩
    | none => exact ih (by omega) (by omega)

theorem exists_fit?_close (h : |valueOf z s| ≤ greatest) :
    ∃ d, fit? z s = some d ∧ Close d (valueOf z s) :=
  exists_fitWithin?_close h (by omega) (by omega)

theorem exists_mul_close (h : |a.toRat * b.toRat| ≤ greatest) :
    ∃ c, a.mul b = .ok c ∧ Close c (a.toRat * b.toRat) := by
  unfold mul
  split
  · next hzero =>
    rw [Bool.or_eq_true, ← toRat_eq_zero_iff, ← toRat_eq_zero_iff] at hzero
    rw [mul_eq_zero.mpr hzero, ← toRat_eq_zero_iff.mpr (rfl : zero.isZero = true)]
    exact ⟨zero, rfl, close_self zero⟩
  · rw [← valueOf_mul] at h ⊢
    obtain ⟨c, hc, hclose⟩ := exists_fit?_close h
    rw [hc]
    exact ⟨c, rfl, hclose⟩

theorem exists_add_close (h : |a.toRat + b.toRat| ≤ greatest) :
    ∃ c, a.add b = .ok c ∧ Close c (a.toRat + b.toRat) := by
  unfold add
  split
  · next hzero =>
    rw [toRat_eq_zero_iff.mpr hzero, zero_add]
    exact ⟨b, rfl, close_self b⟩
  · split
    · next hzero =>
      rw [toRat_eq_zero_iff.mpr hzero, add_zero]
      exact ⟨a, rfl, close_self a⟩
    · rw [← valueOf_aligned_add] at h ⊢
      obtain ⟨c, hc, hclose⟩ := exists_fit?_close h
      dsimp only
      rw [hc]
      exact ⟨c, rfl, hclose⟩

theorem close_hundredth (a : Decimal) : Close a.hundredth (a.toRat / 100) := by
  have hpow : (Nat.pow 10 28 : Rat) ≠ 0 := by exact_mod_cast (pow_ten_pos 28).ne'
  have hvalue : valueOf (a.coefficient * Nat.pow 10 28) (2 + a.places + 28) = a.toRat / 100 := by
    rw [valueOf_mul_pow, valueOf, toRat, pow_ten_add]
    push_cast
    ring
  have h := abs_valueOf_roundDiv_sub_le (a.coefficient * Nat.pow 10 28)
    (Nat.le_add_left 28 (2 + a.places))
  rw [hvalue, Nat.add_sub_cancel, pow_ten_add] at h
  rwa [Close, toRat_hundredth, atPlaces]

end Decimal

open Decimal

namespace Line

/-- A line with amounts that have at most twelve digits before the point and a rate that has at
most three. How many places they have does not matter. -/
structure Moderate (l : Line) : Prop where
  quantity : |l.quantity.toRat| < 10 ^ 12
  unitPrice : |l.unitPrice.toRat| < 10 ^ 12
  vatRate : |l.vatRate.toRat| < 10 ^ 3

/-- What the gross amount of a moderate line does not exceed: a net amount of 24 digits and ten
times as much in tax, with the roundings on the way. -/
def grossLimit : Rat := 11 * 10 ^ 24 + 8

/-- Each step of a moderate line is in range, although a product may need far more digits than
decimals have. -/
theorem Moderate.exists_gross {l : Line} (h : l.Moderate) :
    ∃ gross, l.gross = .ok gross ∧ |gross.toRat| ≤ grossLimit := by
  have hgreatest : greatest = 79228162514264337593543950335 := by
    norm_num [greatest, bound]
  have hproduct : |l.quantity.toRat * l.unitPrice.toRat| ≤ 10 ^ 24 := by
    rw [abs_mul]
    calc |l.quantity.toRat| * |l.unitPrice.toRat|
      _ ≤ 10 ^ 12 * 10 ^ 12 :=
        mul_le_mul h.quantity.le h.unitPrice.le (abs_nonneg _) (by positivity)
      _ = 10 ^ 24 := by norm_num
  obtain ⟨net, hnet, hclose⟩ := exists_mul_close (hproduct.trans (by rw [hgreatest]; norm_num))
  have hnetle := hclose.abs_le hproduct
  have hrated : |net.toRat * l.vatRate.toRat| ≤ 10 ^ 27 + 500 := by
    rw [abs_mul]
    calc |net.toRat| * |l.vatRate.toRat|
      _ ≤ (10 ^ 24 + 1 / 2) * 10 ^ 3 :=
        mul_le_mul hnetle h.vatRate.le (abs_nonneg _) (by positivity)
      _ = 10 ^ 27 + 500 := by norm_num
  obtain ⟨rated, hrate, hclose⟩ := exists_mul_close (hrated.trans (by rw [hgreatest]; norm_num))
  have htax : |rated.toRat / 100| ≤ 10 ^ 25 + 6 := by
    rw [abs_div, abs_of_pos (by norm_num : (0 : Rat) < 100), div_le_iff₀ (by norm_num)]
    exact (hclose.abs_le hrated).trans (by norm_num)
  have htaxle := (close_hundredth rated).abs_le htax
  have hsum : |net.toRat + rated.hundredth.toRat| ≤ 11 * 10 ^ 24 + 7 := by
    calc |net.toRat + rated.hundredth.toRat|
      _ ≤ |net.toRat| + |rated.hundredth.toRat| := abs_add_le _ _
      _ ≤ (10 ^ 24 + 1 / 2) + (10 ^ 25 + 6 + 1 / 2) := add_le_add hnetle htaxle
      _ = 11 * 10 ^ 24 + 7 := by norm_num
  obtain ⟨gross, hgross, hclose⟩ := exists_add_close (hsum.trans (by rw [hgreatest]; norm_num))
  refine ⟨gross, ?_, (hclose.abs_le hsum).trans (by norm_num [grossLimit])⟩
  rw [← hgross, Line.gross, hnet]
  exact congrArg (· >>= fun r : Decimal => net.add r.hundredth) hrate

end Line

namespace Document

variable {d : Document}

theorem exists_grossSum (lines : List Line) (h : ∀ l ∈ lines, l.Moderate)
    (hcount : lines.length ≤ 7000) :
    ∃ sum, grossSum lines = .ok sum ∧
      |sum.toRat| ≤ lines.length * (Line.grossLimit + 1 / 2) := by
  induction lines using List.reverseRecOn with
  | nil => exact ⟨zero, rfl, by simp [toRat, zero]⟩
  | append_singleton lines l ih =>
    rw [List.length_append, List.length_singleton] at hcount ⊢
    obtain ⟨sum, hsum, hle⟩ := ih (fun m hm => h m (List.mem_append_left _ hm)) (by omega)
    obtain ⟨gross, hgross, hgrossle⟩ :=
      (h l (List.mem_append_right _ (List.mem_singleton_self l))).exists_gross
    have htotal : |sum.toRat + gross.toRat|
        ≤ lines.length * (Line.grossLimit + 1 / 2) + Line.grossLimit :=
      (abs_add_le _ _).trans (add_le_add hle hgrossle)
    have hrange : lines.length * (Line.grossLimit + 1 / 2) + Line.grossLimit ≤ greatest := by
      have hfew : (lines.length : Rat) ≤ 6999 := by exact_mod_cast (by omega)
      norm_num [Line.grossLimit, greatest, bound]
      linarith
    obtain ⟨next, hnext, hclose⟩ := exists_add_close (htotal.trans hrange)
    refine ⟨next, ?_, (hclose.abs_le htotal).trans (le_of_eq ?_)⟩
    · rw [grossSum_append_singleton, hsum, hgross]
      exact hnext
    · push_cast
      ring

/-- Amounts that the columns of the store have room for do not overflow, over up to 7000 lines:
each line has a gross amount, the document has a total, and there is a verdict on closing it. -/
theorem moderate_amounts_in_range (hcount : d.lines.length ≤ 7000)
    (h : ∀ l ∈ d.lines, l.Moderate) :
    (∀ l ∈ d.lines, ∃ gross, l.gross = .ok gross) ∧
      (∃ total, d.grossTotal = .ok total) ∧ ∃ verdict, d.checkChange .closed = .ok verdict := by
  obtain ⟨sum, hsum, -⟩ := exists_grossSum d.lines h hcount
  have htotal : d.grossTotal = .ok (sum.round 2) := by
    rw [grossTotal, hsum]
    rfl
  refine ⟨?_, ⟨_, htotal⟩, ?_⟩
  · intro l hl
    obtain ⟨gross, hgross, -⟩ := (h l hl).exists_gross
    exact ⟨gross, hgross⟩
  · unfold checkChange checkClose
    rw [htotal]
    split
    · dsimp only
      split <;> exact ⟨_, rfl⟩
    · exact ⟨_, rfl⟩

/-- An open document with the largest amounts that the store has room for. -/
def extreme : Document :=
  { id := default, tenant := default, status := .opened, number := none, party := none
    documentType := none, closedAt := none, version := 1, created := default, updated := default
    lines := [⟨1, "", ofParts 9999999999999999 4, ofParts 9999999999999999 4, ofParts 9999999 4⟩,
      ⟨2, "", ofParts (-9999999999999999) 4, ofParts 9999999999999999 4, ofParts 9999999 4⟩] }

theorem moderate_extreme : ∀ l ∈ extreme.lines, l.Moderate := by
  intro l hl
  simp only [extreme, List.mem_cons, List.not_mem_nil, or_false] at hl
  rcases hl with rfl | rfl <;> exact ⟨by decide +kernel, by decide +kernel, by decide +kernel⟩

/-- Quantity times price alone needs more than 96 bits, on both lines. -/
theorem moderate_amounts_in_range_extreme :
    (∀ l ∈ extreme.lines, bound ≤ (l.quantity.coefficient * l.unitPrice.coefficient).natAbs) ∧
      (∀ l ∈ extreme.lines, ∃ gross, l.gross = .ok gross) ∧
      (∃ total, extreme.grossTotal = .ok total) ∧
      ∃ verdict, extreme.checkChange .closed = .ok verdict :=
  ⟨by decide +kernel, moderate_amounts_in_range (by decide) moderate_extreme⟩

end Document

end Docket
