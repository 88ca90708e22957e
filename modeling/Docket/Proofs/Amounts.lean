import Mathlib.Tactic.Ring
import Mathlib.Tactic.FieldSimp
import Mathlib.Tactic.NormNum
import Mathlib.Algebra.Order.Field.Rat
import Docket.Document

/-! # Amounts

Decimals of the same value are the same amount, however many places they are written with. What
arithmetic makes of amounts depends on the amounts alone: it overflows for one spelling exactly if
it does for every other, and its result is the same amount. So are the totals of documents whose
lines have the same amounts.
-/

namespace Docket

namespace Decimal

theorem pow_ten_pos (n : Nat) : 0 < Nat.pow 10 n := Nat.pow_pos (by decide)

theorem pow_ten_add (m n : Nat) : Nat.pow 10 (m + n) = Nat.pow 10 m * Nat.pow 10 n :=
  Nat.pow_add 10 m n

theorem cast_pow_ten (n : Nat) : ((Nat.pow 10 n : Nat) : Rat) = 10 ^ n := Nat.cast_pow 10 n

theorem roundQuotient_mul {n d m : Nat} (hm : 0 < m) :
    roundQuotient (n * m) (d * m) = roundQuotient n d := by
  have hr : 2 * (n * m % (d * m)) = 2 * (n % d) * m := by
    rw [Nat.mul_mod_mul_right, Nat.mul_assoc]
  unfold roundQuotient
  simp only [Nat.mul_div_mul_right n d hm, hr, Nat.mul_lt_mul_right hm,
    Nat.mul_left_inj hm.ne']

theorem roundDiv_mul (z : Int) (d : Nat) {m : Nat} (hm : 0 < m) :
    roundDiv (z * m) (d * m) = roundDiv z d := by
  have hneg : z * m < 0 ↔ z < 0 := by
    constructor
    · intro h
      by_contra hz
      exact absurd h (Int.not_lt.mpr (Int.mul_nonneg (Int.not_lt.mp hz) (Int.natCast_nonneg m)))
    · exact fun h => Int.mul_neg_of_neg_of_pos h (Int.natCast_pos.mpr hm)
  have habs : (z * m).natAbs = z.natAbs * m := Int.natAbs_mul z m
  unfold roundDiv
  simp only [hneg, habs, roundQuotient_mul hm]

theorem roundDiv_one (z : Int) : roundDiv z 1 = z := by
  unfold roundDiv
  rw [roundQuotient_one]
  split <;> omega

theorem roundDiv_mul_self (z : Int) {m : Nat} (hm : 0 < m) : roundDiv (z * m) m = z := by
  have h := roundDiv_mul z 1 hm
  rwa [Nat.one_mul, roundDiv_one] at h

/-- A rounded quotient depends on the value of the quotient alone. -/
theorem roundDiv_congr {z w : Int} {d e : Nat} (hd : 0 < d) (he : 0 < e) (h : z * e = w * d) :
    roundDiv z d = roundDiv w e := by
  rw [← roundDiv_mul z d he, h, ← roundDiv_mul w e hd, Nat.mul_comm d e]

theorem ofParts?_eq_some_iff {c : Int} {s : Nat} {d : Decimal} :
    ofParts? c s = some d ↔ d.coefficient = c ∧ d.places = s := by
  unfold ofParts?
  constructor
  · intro h
    split at h
    · cases h
      exact ⟨rfl, rfl⟩
    · cases h
  · rintro ⟨rfl, rfl⟩
    rw [dif_pos ⟨d.coefficient_lt, d.places_le⟩]

theorem ofParts?_eq_none_iff {c : Int} {s : Nat} :
    ofParts? c s = none ↔ bound ≤ c.natAbs ∨ 28 < s := by
  unfold ofParts?
  split
  · next h => exact ⟨nofun, by omega⟩
  · next h => exact ⟨fun _ => by omega, fun _ => rfl⟩

def ofParts (c : Int) (s : Nat) : Decimal := (ofParts? c s).getD zero

def valueOf (z : Int) (s : Nat) : Rat := z / Nat.pow 10 s

theorem toRat_eq_valueOf (d : Decimal) : d.toRat = valueOf d.coefficient d.places := rfl

theorem valueOf_eq_iff {z w : Int} {s t : Nat} :
    valueOf z s = valueOf w t ↔ z * Nat.pow 10 t = w * Nat.pow 10 s := by
  have hs : (Nat.pow 10 s : Rat) ≠ 0 := by exact_mod_cast (pow_ten_pos s).ne'
  have ht : (Nat.pow 10 t : Rat) ≠ 0 := by exact_mod_cast (pow_ten_pos t).ne'
  unfold valueOf
  rw [div_eq_div_iff (by exact_mod_cast hs) (by exact_mod_cast ht)]
  exact_mod_cast Iff.rfl

theorem valueOf_mul_pow (z : Int) (s j : Nat) :
    valueOf (z * Nat.pow 10 j) (s + j) = valueOf z s := by
  rw [valueOf_eq_iff]
  rw [pow_ten_add, Nat.cast_mul]
  ring

theorem ofParts?_map_toRat {c : Int} {s : Nat} (hc : c.natAbs < bound) (hs : s ≤ 28) :
    (ofParts? c s).map toRat = some (valueOf c s) := by
  unfold ofParts?
  rw [dif_pos ⟨hc, hs⟩]
  rfl

theorem fitWithin?_mul_pow (z : Int) (s j : Nat) {k : Nat} (hk : k ≤ s) :
    fitWithin? (z * Nat.pow 10 j) (s + j) k = fitWithin? z s k := by
  have hround (i : Nat) (hi : i ≤ s) :
      roundDiv (z * Nat.pow 10 j) (Nat.pow 10 (s + j - i)) = roundDiv z (Nat.pow 10 (s - i)) := by
    have hpow : Nat.pow 10 (s + j - i) = Nat.pow 10 (s - i) * Nat.pow 10 j := by
      rw [← pow_ten_add, show s + j - i = s - i + j by omega]
    rw [hpow]
    exact roundDiv_mul z _ (pow_ten_pos j)
  induction k with
  | zero =>
    unfold fitWithin?
    rw [← Nat.sub_zero (s + j), hround 0 hk, Nat.sub_zero]
  | succ k ih =>
    unfold fitWithin?
    rw [hround (k + 1) hk, ih (by omega)]

theorem fitWithin?_self {z : Int} {s : Nat} (hz : z.natAbs < bound) (hs : s ≤ 28) :
    (fitWithin? z s s).map toRat = some (valueOf z s) := by
  have hself : (ofParts? z s).map toRat = some (valueOf z s) := ofParts?_map_toRat hz hs
  cases s with
  | zero =>
    unfold fitWithin?
    rwa [show Nat.pow 10 0 = 1 from rfl, roundDiv_one]
  | succ s =>
    unfold fitWithin?
    rw [Nat.sub_self, show Nat.pow 10 0 = 1 from rfl, roundDiv_one]
    obtain ⟨d, hd, -⟩ := Option.map_eq_some_iff.mp hself
    rw [hd] at hself ⊢
    exact hself

/-- More places than a number has itself do not change the amount that it is rounded to. -/
theorem fitWithin?_extended (z : Int) {s j : Nat} : ∀ {i : Nat}, i ≤ j → s + i ≤ 28 →
    (fitWithin? (z * Nat.pow 10 j) (s + j) (s + i)).map toRat = (fitWithin? z s s).map toRat
  | 0, _, _ => by rw [Nat.add_zero, fitWithin?_mul_pow z s j le_rfl]
  | i + 1, hi, hs => by
    have hround : roundDiv (z * Nat.pow 10 j) (Nat.pow 10 (s + j - (s + i + 1)))
        = z * Nat.pow 10 (i + 1) := by
      have hpow : Nat.pow 10 j = Nat.pow 10 (i + 1) * Nat.pow 10 (s + j - (s + i + 1)) := by
        rw [← pow_ten_add, show i + 1 + (s + j - (s + i + 1)) = j by omega]
      rw [hpow, Nat.cast_mul, ← mul_assoc]
      exact roundDiv_mul_self _ (pow_ten_pos _)
    rw [← Nat.add_assoc, fitWithin?, hround]
    cases h : ofParts? (z * Nat.pow 10 (i + 1)) (s + i + 1) with
    | none => exact fitWithin?_extended z (by omega) (by omega)
    | some d =>
      obtain ⟨hd, hplaces⟩ := ofParts?_eq_some_iff.mp h
      have hz : z.natAbs < bound := by
        have hlt := d.coefficient_lt
        rw [hd, Int.natAbs_mul] at hlt
        exact Nat.lt_of_le_of_lt (Nat.le_mul_of_pos_right _ (pow_ten_pos (i + 1))) hlt
      rw [fitWithin?_self hz (by omega), Option.map_some, toRat_eq_valueOf, hd, hplaces,
        Nat.add_assoc, valueOf_mul_pow]

theorem fit?_mul_pow (z : Int) (s j : Nat) :
    (fit? (z * Nat.pow 10 j) (s + j)).map toRat = (fit? z s).map toRat := by
  unfold fit?
  by_cases hs : s ≤ 28
  · rw [show min s 28 = s by omega, show min (s + j) 28 = s + min j (28 - s) by omega]
    exact fitWithin?_extended z (by omega) (by omega)
  · rw [show min s 28 = 28 by omega, show min (s + j) 28 = 28 by omega,
      fitWithin?_mul_pow z s j (by omega)]

/-- The amount that a number is rounded to depends on its value alone. -/
theorem fit?_congr {z w : Int} {s t : Nat} (h : valueOf z s = valueOf w t) :
    (fit? z s).map toRat = (fit? w t).map toRat := by
  wlog hst : s ≤ t generalizing z w s t
  · exact (this h.symm (Nat.le_of_not_le hst)).symm
  obtain ⟨j, rfl⟩ := Nat.exists_eq_add_of_le hst
  have hw : w = z * Nat.pow 10 j := by
    rw [← valueOf_mul_pow z s j, valueOf_eq_iff] at h
    exact (mul_right_cancel₀ (by exact_mod_cast (pow_ten_pos _).ne') h).symm
  rw [hw, fit?_mul_pow]

variable {a b a' b' : Decimal}

theorem toRat_eq_zero_iff : a.toRat = 0 ↔ a.isZero := by
  rw [toRat_eq_valueOf, show (0 : Rat) = valueOf 0 0 by simp [valueOf], valueOf_eq_iff]
  simp [isZero]

theorem isZero_congr (h : a.toRat = a'.toRat) : a.isZero = a'.isZero := by
  rw [Bool.eq_iff_iff, ← toRat_eq_zero_iff, ← toRat_eq_zero_iff, h]

theorem valueOf_mul (a b : Decimal) :
    valueOf (a.coefficient * b.coefficient) (a.places + b.places) = a.toRat * b.toRat := by
  simp only [valueOf, toRat, Nat.pow_eq, pow_add]
  push_cast
  rw [mul_div_mul_comm]

theorem valueOf_aligned {s : Nat} (h : a.places ≤ s) : valueOf (a.aligned s) s = a.toRat := by
  have hvalue := valueOf_mul_pow a.coefficient a.places (s - a.places)
  rwa [show a.places + (s - a.places) = s by omega] at hvalue

theorem valueOf_add (z w : Int) (s : Nat) : valueOf (z + w) s = valueOf z s + valueOf w s := by
  simp only [valueOf, Int.cast_add, add_div]

theorem valueOf_aligned_add (a b : Decimal) :
    valueOf (a.aligned (max a.places b.places) + b.aligned (max a.places b.places))
      (max a.places b.places) = a.toRat + b.toRat := by
  rw [valueOf_add, valueOf_aligned (by omega), valueOf_aligned (by omega)]

/-- The amount that a number is rounded to, or the overflow where it does not fit. -/
def amountOf (z : Int) (s : Nat) (o : Overflow) : Except Overflow Rat :=
  match (fit? z s).map toRat with
  | some q => .ok q
  | none => .error o

theorem amountOf_congr {z w : Int} {s t : Nat} (h : valueOf z s = valueOf w t) (o : Overflow) :
    amountOf z s o = amountOf w t o := by
  rw [amountOf, amountOf, fit?_congr h]

theorem map_mul (a b : Decimal) :
    (a.mul b).map toRat = if a.isZero || b.isZero then .ok 0
      else amountOf (a.coefficient * b.coefficient) (a.places + b.places) .decimalProduct := by
  unfold mul amountOf
  split
  · simp [Except.map, zero, toRat]
  · cases fit? (a.coefficient * b.coefficient) (a.places + b.places) <;> rfl

theorem map_add (a b : Decimal) :
    (a.add b).map toRat = if a.isZero then .ok b.toRat else if b.isZero then .ok a.toRat
      else amountOf (a.aligned (max a.places b.places) + b.aligned (max a.places b.places))
        (max a.places b.places) .decimalSum := by
  unfold add amountOf
  split
  · rfl
  · split
    · rfl
    · dsimp only
      cases fit? (a.aligned (max a.places b.places) + b.aligned (max a.places b.places))
        (max a.places b.places) <;> rfl

theorem mul_congr (ha : a.toRat = a'.toRat) (hb : b.toRat = b'.toRat) :
    (a.mul b).map toRat = (a'.mul b').map toRat := by
  have hvalue : valueOf (a.coefficient * b.coefficient) (a.places + b.places)
      = valueOf (a'.coefficient * b'.coefficient) (a'.places + b'.places) := by
    rw [valueOf_mul, valueOf_mul, ha, hb]
  rw [map_mul, map_mul, isZero_congr ha, isZero_congr hb, amountOf_congr hvalue]

theorem add_congr (ha : a.toRat = a'.toRat) (hb : b.toRat = b'.toRat) :
    (a.add b).map toRat = (a'.add b').map toRat := by
  have hvalue := valueOf_aligned_add a b
  rw [ha, hb, ← valueOf_aligned_add a' b'] at hvalue
  rw [map_add, map_add, isZero_congr ha, isZero_congr hb, ha, hb, amountOf_congr hvalue]

/-- The value of a decimal at a given number of places, rounded if it needs more, divided by `d`. -/
def atPlaces (a : Decimal) (d s : Nat) : Rat :=
  valueOf (roundDiv (a.coefficient * Nat.pow 10 s) (d * Nat.pow 10 a.places)) s

theorem atPlaces_congr (h : a.toRat = a'.toRat) {d : Nat} (hd : 0 < d) (s : Nat) :
    a.atPlaces d s = a'.atPlaces d s := by
  have hcross := valueOf_eq_iff.mp h
  unfold atPlaces
  congr 1
  refine roundDiv_congr (Nat.mul_pos hd (pow_ten_pos _)) (Nat.mul_pos hd (pow_ten_pos _)) ?_
  push_cast
  calc a.coefficient * (Nat.pow 10 s : Int) * (d * (Nat.pow 10 a'.places : Int))
    _ = a.coefficient * (Nat.pow 10 a'.places : Int) * (Nat.pow 10 s * d) := by ring
    _ = a'.coefficient * (Nat.pow 10 a.places : Int) * (Nat.pow 10 s * d) := by rw [hcross]
    _ = a'.coefficient * (Nat.pow 10 s : Int) * (d * (Nat.pow 10 a.places : Int)) := by ring

theorem atPlaces_eq {d s j : Nat} {z : Int} (hd : 0 < d)
    (h : a.coefficient * Nat.pow 10 j = z * d) (hs : a.places + j ≤ s) :
    a.atPlaces d s = valueOf z (a.places + j) := by
  obtain ⟨i, rfl⟩ := Nat.exists_eq_add_of_le hs
  have hquotient : a.coefficient * (Nat.pow 10 (a.places + j + i) : Int)
      = z * Nat.pow 10 i * (d * Nat.pow 10 a.places : Nat) := by
    rw [pow_ten_add, pow_ten_add]
    push_cast
    calc a.coefficient * (Nat.pow 10 a.places * (Nat.pow 10 j : Int) * Nat.pow 10 i)
      _ = a.coefficient * (Nat.pow 10 j : Int) * (Nat.pow 10 a.places * Nat.pow 10 i) := by ring
      _ = z * Nat.pow 10 i * (d * Nat.pow 10 a.places) := by rw [h]; ring
  rw [atPlaces, hquotient, roundDiv_mul_self _ (Nat.mul_pos hd (pow_ten_pos _)), valueOf_mul_pow]

theorem toRat_round (s : Nat) (a : Decimal) : (a.round s).toRat = a.atPlaces 1 s := by
  unfold round
  split
  · next h =>
    rw [atPlaces_eq Nat.one_pos (j := 0) (z := a.coefficient) (by simp) h]
    rfl
  · next h =>
    have hpow : Nat.pow 10 a.places = Nat.pow 10 (a.places - s) * Nat.pow 10 s := by
      rw [← pow_ten_add, show a.places - s + s = a.places by omega]
    rw [atPlaces, Nat.one_mul, hpow, roundDiv_mul _ _ (pow_ten_pos s)]
    rfl

theorem round_congr (h : a.toRat = a'.toRat) (s : Nat) :
    (a.round s).toRat = (a'.round s).toRat := by
  rw [toRat_round, toRat_round, atPlaces_congr h Nat.one_pos]

theorem toRat_dropZeros (n : Nat) (a : Decimal) : (a.dropZeros n).toRat = a.toRat := by
  unfold dropZeros
  split
  · next h =>
    rw [toRat_eq_valueOf a, toRat_eq_valueOf, valueOf_eq_iff]
    have hpow : Nat.pow 10 a.places = Nat.pow 10 n * Nat.pow 10 (a.places - n) := by
      rw [← pow_ten_add, Nat.add_sub_cancel' h.1]
    rw [hpow, Nat.cast_mul, ← mul_assoc, Int.ediv_mul_cancel (Int.dvd_of_emod_eq_zero h.2)]
  · rfl

theorem toRat_trimZeros (a : Decimal) : a.trimZeros.toRat = a.toRat := by
  have height (b : Decimal) : b.dropEightZeros.toRat = b.toRat := by
    unfold dropEightZeros
    split
    · exact toRat_dropZeros 8 b
    · rfl
  unfold trimZeros
  simp only [toRat_dropZeros, height]

theorem toRat_hundredthWithin (a : Decimal) : ∀ {k : Nat}, 2 ≤ k ∨ 28 ≤ a.places + k →
    (a.hundredthWithin k).toRat = a.atPlaces 100 28
  | 0, hk => by
    have hplaces := a.places_le
    have h28 : a.places = 28 := by omega
    rw [atPlaces, h28, roundDiv_mul _ _ (pow_ten_pos 28), ← h28]
    rfl
  | k + 1, hk => by
    unfold hundredthWithin
    cases h : ofParts? (roundDiv (a.coefficient * Nat.pow 10 (k + 1)) 100) (a.places + (k + 1)) with
    | some b =>
      obtain ⟨hb, hplaces⟩ := ofParts?_eq_some_iff.mp h
      have hlimit := b.places_le
      rw [toRat_eq_valueOf b, hb, hplaces]
      by_cases hlast : a.places + (k + 1) = 28
      · have hpow : Nat.pow 10 28 = Nat.pow 10 (k + 1) * Nat.pow 10 a.places := by
          rw [← pow_ten_add, Nat.add_comm, hlast]
        rw [atPlaces, hpow, Nat.cast_mul, ← mul_assoc, roundDiv_mul _ _ (pow_ten_pos _), hlast]
      · obtain ⟨i, rfl⟩ : ∃ i, k = i + 1 := ⟨k - 1, by omega⟩
        have hexact : a.coefficient * (Nat.pow 10 (i + 2) : Int)
            = a.coefficient * Nat.pow 10 i * (100 : Nat) := by
          rw [pow_ten_add, Nat.cast_mul, mul_assoc]
        rw [atPlaces_eq (by decide) hexact (by omega)]
        change valueOf (roundDiv (a.coefficient * (Nat.pow 10 (i + 2) : Int)) 100) _ = _
        rw [hexact, roundDiv_mul_self _ (by decide)]
    | none =>
      -- two more places are always enough room, and so is one where it is the last there is
      refine toRat_hundredthWithin a ?_
      by_contra hmore
      have hpow : 100 = Nat.pow 10 (1 - k) * Nat.pow 10 (k + 1) := by
        rw [← pow_ten_add, show 1 - k + (k + 1) = 2 by omega]
      rcases ofParts?_eq_none_iff.mp h with hlarge | hplaces
      · rw [hpow, roundDiv_mul _ _ (pow_ten_pos _), natAbs_roundDiv] at hlarge
        have hle := roundQuotient_le (n := a.coefficient.natAbs) (pow_ten_pos (1 - k))
        have hlt := a.coefficient_lt
        omega
      · omega

/-- A hundredth is exact, except for an amount that has places 27 or 28. -/
theorem toRat_hundredth (a : Decimal) : a.hundredth.toRat = a.atPlaces 100 28 := by
  unfold hundredth
  split
  · next h =>
    have hzero : a.coefficient = 0 := by simpa [isZero] using h
    simp [atPlaces, hzero, roundDiv, roundQuotient, valueOf, toRat, zero]
  · split
    · next h =>
      have hexact : a.coefficient * (Nat.pow 10 0 : Int) = a.coefficient / 100 * (100 : Nat) := by
        rw [show ((Nat.pow 10 0 : Nat) : Int) = 1 from rfl, mul_one]
        exact (Int.ediv_mul_cancel (Int.dvd_of_emod_eq_zero h)).symm
      rw [atPlaces_eq (by decide) hexact a.places_le]
      rfl
    · rw [toRat_trimZeros, toRat_hundredthWithin a (Or.inl (by decide))]

theorem hundredth_congr (h : a.toRat = a'.toRat) : a.hundredth.toRat = a'.hundredth.toRat := by
  rw [toRat_hundredth, toRat_hundredth, atPlaces_congr h (by decide)]

theorem map_bind_congr {x y : Except Overflow Decimal} {f g : Decimal → Except Overflow Decimal}
    (hxy : x.map toRat = y.map toRat)
    (hfg : ∀ a b, a.toRat = b.toRat → (f a).map toRat = (g b).map toRat) :
    (x >>= f).map toRat = (y >>= g).map toRat := by
  cases x <;> cases y
  · exact hxy
  · cases hxy
  · cases hxy
  · exact hfg _ _ (Except.ok.inj hxy)

end Decimal

open Decimal

/-- Lines with the same amounts, however these are written. -/
structure Line.Matches (l m : Line) : Prop where
  quantity : l.quantity.toRat = m.quantity.toRat
  unitPrice : l.unitPrice.toRat = m.unitPrice.toRat
  vatRate : l.vatRate.toRat = m.vatRate.toRat

theorem Line.Matches.gross {l m : Line} (h : l.Matches m) :
    l.gross.map toRat = m.gross.map toRat := by
  refine map_bind_congr (mul_congr h.quantity h.unitPrice) fun net net' hnet => ?_
  refine map_bind_congr (mul_congr hnet h.vatRate) fun tax tax' htax => ?_
  exact add_congr hnet (hundredth_congr htax)

theorem Document.grossSum_append_singleton (lines : List Line) (l : Line) :
    grossSum (lines ++ [l]) = (do
      let sum ← grossSum lines
      sum.add (← l.gross)) := by
  unfold grossSum
  simp only [List.foldlM_append, List.foldlM_cons, List.foldlM_nil, bind_pure]

theorem Document.grossSum_congr {lines lines' : List Line}
    (h : List.Forall₂ Line.Matches lines lines') :
    (grossSum lines).map toRat = (grossSum lines').map toRat := by
  let step (sum : Decimal) (l : Line) : Except Overflow Decimal := do sum.add (← l.gross)
  suffices hsum : ∀ sum sum' : Decimal, sum.toRat = sum'.toRat →
      (lines.foldlM step sum).map toRat = (lines'.foldlM step sum').map toRat from
    hsum zero zero rfl
  induction h with
  | nil => exact fun sum sum' hsum => congrArg Except.ok hsum
  | cons hline hlines ih =>
    intro sum sum' hsum
    refine map_bind_congr ?_ ih
    exact map_bind_congr hline.gross fun a b hab => add_congr hsum hab

theorem Document.grossTotal_congr {d e : Document} (h : List.Forall₂ Line.Matches d.lines e.lines) :
    d.grossTotal.map toRat = e.grossTotal.map toRat :=
  map_bind_congr (grossSum_congr h) fun _ _ hsum => congrArg Except.ok (round_congr hsum 2)

end Docket
