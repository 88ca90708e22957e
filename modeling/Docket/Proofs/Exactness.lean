import Mathlib.Tactic.LinearCombination
import Docket.Proofs.Amounts
import Docket.Proofs.Rounding
import Docket.Proofs.Rules

/-! # Exact totals

Arithmetic is exact as long as decimals have the values that it leads to. The total of a document is
then the exact sum of its amounts, rounded once at the end, and neither the order of the lines nor
the way their amounts are written has a part in it.
-/

namespace Docket

namespace Decimal

variable {a b : Decimal} {z : Int} {s : Nat}

/-- A number that needs no more bits and no more places than decimals have. -/
def Representable (q : Rat) : Prop := ∃ d : Decimal, d.toRat = q

theorem fit?_exact (h : Representable (valueOf z s)) :
    (fit? z s).map toRat = some (valueOf z s) := by
  obtain ⟨d, hd⟩ := h
  rw [← hd, fit?_congr (hd.symm.trans (toRat_eq_valueOf d)), fit?, Nat.min_eq_left d.places_le]
  exact fitWithin?_self d.coefficient_lt d.places_le

theorem amountOf_exact (h : Representable (valueOf z s)) (o : Overflow) :
    amountOf z s o = .ok (valueOf z s) := by
  rw [amountOf, fit?_exact h]

theorem mul_exact (h : Representable (a.toRat * b.toRat)) :
    (a.mul b).map toRat = .ok (a.toRat * b.toRat) := by
  rw [← valueOf_mul] at h
  rw [map_mul]
  split
  · next hzero =>
    rw [Bool.or_eq_true, ← toRat_eq_zero_iff, ← toRat_eq_zero_iff] at hzero
    rw [mul_eq_zero.mpr hzero]
  · rw [amountOf_exact h, valueOf_mul]

theorem add_exact (h : Representable (a.toRat + b.toRat)) :
    (a.add b).map toRat = .ok (a.toRat + b.toRat) := by
  rw [← valueOf_aligned_add] at h
  rw [map_add]
  split
  · next hzero => rw [toRat_eq_zero_iff.mpr hzero, zero_add]
  · split
    · next hzero => rw [toRat_eq_zero_iff.mpr hzero, add_zero]
    · rw [amountOf_exact h, valueOf_aligned_add]

theorem hundredth_exact (h : Representable (a.toRat / 100)) :
    a.hundredth.toRat = a.toRat / 100 := by
  obtain ⟨d, hd⟩ := h
  have hvalue : valueOf a.coefficient a.places = valueOf (d.coefficient * 100) d.places := by
    rw [← toRat_eq_valueOf, ← div_mul_cancel₀ a.toRat (by norm_num : (100 : Rat) ≠ 0), ← hd,
      toRat_eq_valueOf, valueOf, valueOf, div_mul_eq_mul_div]
    push_cast
    rfl
  have hcross := valueOf_eq_iff.mp hvalue
  have hround : roundDiv (a.coefficient * Nat.pow 10 28) (100 * Nat.pow 10 a.places)
      = roundDiv (d.coefficient * Nat.pow 10 (28 - d.places)) 1 := by
    apply roundDiv_congr (Nat.mul_pos (by decide) (pow_ten_pos _)) Nat.one_pos
    have hpow : Nat.pow 10 28 = Nat.pow 10 d.places * Nat.pow 10 (28 - d.places) := by
      rw [← pow_ten_add, Nat.add_sub_cancel' d.places_le]
    rw [hpow]
    push_cast
    linear_combination (Nat.pow 10 (28 - d.places) : Int) * hcross
  rw [toRat_hundredth, atPlaces, hround, roundDiv_one, ← hd, toRat_eq_valueOf]
  have hplaces := valueOf_mul_pow d.coefficient d.places (28 - d.places)
  rwa [Nat.add_sub_cancel' d.places_le] at hplaces

/-- A decimal is rounded to the nearest number of parts. -/
theorem exists_nearest_round (s : Nat) (a : Decimal) :
    ∃ n : Int, (a.round s).toRat = valueOf n s ∧ Nearest (a.toRat * Nat.pow 10 s) n := by
  refine ⟨_, toRat_round s a, ?_⟩
  have h := nearest_roundDiv (a.coefficient * Nat.pow 10 s)
    (Nat.mul_pos Nat.one_pos (pow_ten_pos a.places))
  have hvalue : ((a.coefficient * Nat.pow 10 s : Int) : Rat) / (1 * Nat.pow 10 a.places : Nat)
      = a.toRat * Nat.pow 10 s := by
    rw [Nat.one_mul, toRat]
    push_cast
    ring
  rwa [hvalue] at h

theorem map_bind_eq_ok {x : Except Overflow Decimal} {f : Decimal → Except Overflow Decimal}
    {q r : Rat} (hx : x.map toRat = .ok q) (hf : ∀ a, a.toRat = q → (f a).map toRat = .ok r) :
    (x >>= f).map toRat = .ok r := by
  cases x with
  | error o => cases hx
  | ok a => exact hf a (Except.ok.inj hx)

end Decimal

open Decimal

namespace Line

/-- Amount with tax as the rates and prices have it, with nothing rounded. -/
def amount (l : Line) : Rat :=
  l.quantity.toRat * l.unitPrice.toRat * (1 + l.vatRate.toRat / 100)

/-- A line for which nothing that is computed has to be rounded. -/
structure Exact (l : Line) : Prop where
  net : Representable (l.quantity.toRat * l.unitPrice.toRat)
  rated : Representable (l.quantity.toRat * l.unitPrice.toRat * l.vatRate.toRat)
  tax : Representable (l.quantity.toRat * l.unitPrice.toRat * l.vatRate.toRat / 100)
  gross : Representable l.amount

theorem amount_eq_add (l : Line) :
    l.amount = l.quantity.toRat * l.unitPrice.toRat
      + l.quantity.toRat * l.unitPrice.toRat * l.vatRate.toRat / 100 := by
  unfold amount
  ring

theorem Exact.gross_eq {l : Line} (h : l.Exact) : l.gross.map toRat = .ok l.amount := by
  apply map_bind_eq_ok (mul_exact h.net)
  intro net hnet
  have hrated := h.rated
  rw [← hnet] at hrated
  apply map_bind_eq_ok (mul_exact hrated)
  intro rated hvalue
  have htax : rated.hundredth.toRat
      = l.quantity.toRat * l.unitPrice.toRat * l.vatRate.toRat / 100 := by
    rw [hundredth_exact] <;> rw [hvalue, hnet]
    exact h.tax
  have hsum : net.toRat + rated.hundredth.toRat = l.amount := by
    rw [hnet, htax, amount_eq_add]
  rw [add_exact, hsum]
  rw [hsum]
  exact h.gross

theorem Matches.amount_eq {l m : Line} (h : l.Matches m) : l.amount = m.amount := by
  rw [amount, amount, h.quantity, h.unitPrice, h.vatRate]

end Line

namespace Document

variable {d e : Document}

/-- The exact sum of the amounts with tax. -/
def amount (d : Document) : Rat := (d.lines.map Line.amount).sum

/-- A document for which nothing is rounded before the end: each line is exact, and so is the sum
of the lines up to each one of them. -/
structure Exact (d : Document) : Prop where
  lines : ∀ l ∈ d.lines, l.Exact
  sums : ∀ first, first <+: d.lines → Representable (first.map Line.amount).sum

theorem grossSum_exact (lines : List Line) (h : ∀ l ∈ lines, l.Exact)
    (hsums : ∀ first, first <+: lines → Representable (first.map Line.amount).sum) :
    (grossSum lines).map toRat = .ok (lines.map Line.amount).sum := by
  induction lines using List.reverseRecOn with
  | nil => simp [grossSum, Except.map, pure, Except.pure, toRat, zero]
  | append_singleton lines l ih =>
    have hsum := ih (fun m hm => h m (List.mem_append_left _ hm))
      (fun first hfirst => hsums first (hfirst.trans (List.prefix_append _ _)))
    have hlast := hsums _ List.prefix_rfl
    rw [List.map_append, List.sum_append, List.map_singleton, List.sum_singleton] at hlast ⊢
    rw [grossSum_append_singleton]
    apply map_bind_eq_ok hsum
    intro sum hvalue
    apply map_bind_eq_ok (h l (List.mem_append_right _ (List.mem_singleton_self l))).gross_eq
    intro gross hgross
    rw [← hvalue, ← hgross] at hlast ⊢
    exact add_exact hlast

theorem Exact.total (h : d.Exact) :
    ∃ (total : Decimal) (n : Int), d.grossTotal = .ok total ∧ total.toRat = n / 100 ∧
      Nearest (100 * d.amount) n := by
  have hsum := grossSum_exact d.lines h.lines h.sums
  unfold grossTotal
  cases hgross : grossSum d.lines with
  | error o =>
    rw [hgross] at hsum
    cases hsum
  | ok sum =>
    rw [hgross] at hsum
    obtain ⟨n, hround, hnearest⟩ := exists_nearest_round 2 sum
    refine ⟨sum.round 2, n, rfl, hround, ?_⟩
    rwa [show sum.toRat = d.amount from Except.ok.inj hsum, mul_comm] at hnearest

/-- Neither the order of the lines nor the way their amounts are written changes the exact sum. -/
theorem amount_eq_of_perm {lines : List Line} (hmatches : List.Forall₂ Line.Matches d.lines lines)
    (hperm : lines.Perm e.lines) : d.amount = e.amount := by
  have hsame : d.lines.map Line.amount = lines.map Line.amount := by
    rw [← List.forall₂_eq_eq_eq, List.forall₂_map_left_iff, List.forall₂_map_right_iff]
    exact hmatches.imp fun _ _ h => h.amount_eq
  rw [amount, hsame, (hperm.map Line.amount).sum_eq, amount]

theorem checkClose_zeroTotal_iff {total : Decimal} (htotal : d.grossTotal = .ok total)
    (hlines : d.lines ≠ []) :
    (∃ o, d.checkClose = .ok (.rejected o) ∧ o.kind = .zeroTotal) ↔ total.toRat ≤ 0 := by
  rw [← not_lt, ← isPositive_iff]
  simp only [checkClose, List.isEmpty_eq_false_iff.mpr hlines, htotal]
  cases total.isPositive with
  | false => exact ⟨fun _ => nofun, fun _ => ⟨.closeWithoutTotal total, rfl, rfl⟩⟩
  | true =>
    constructor
    · rintro ⟨o, ho, hkind⟩
      simp only [Bool.not_true, Bool.false_eq_true, if_false, Except.ok.injEq] at ho
      split at ho
      · cases ho
        cases hkind
      · split at ho <;> cases ho
        cases hkind
    · exact fun h => absurd rfl h

/-- The total of a document for which nothing is rounded before is the exact sum of the amounts
with tax, rounded to two places, and a half to the even neighbour. It is the same for the same
lines in any order and with their amounts written in any way, and a document with lines cannot be
closed for its total exactly if that is not positive. -/
theorem total_rounded_once (h : d.Exact) :
    ∃ (total : Decimal) (n : Int), d.grossTotal = .ok total ∧
      total.toRat = n / 100 ∧ Nearest (100 * d.amount) n ∧
      (∀ (e : Document) (lines : List Line), e.Exact → List.Forall₂ Line.Matches d.lines lines →
        lines.Perm e.lines → e.grossTotal.map toRat = .ok total.toRat) ∧
      (d.lines ≠ [] → ((∃ o, d.checkClose = .ok (.rejected o) ∧ o.kind = .zeroTotal) ↔ n ≤ 0)) := by
  obtain ⟨total, n, htotal, hvalue, hnearest⟩ := h.total
  refine ⟨total, n, htotal, hvalue, hnearest, ?_, ?_⟩
  · intro e lines he hmatches hperm
    obtain ⟨total', n', htotal', hvalue', hnearest'⟩ := he.total
    rw [← amount_eq_of_perm hmatches hperm] at hnearest'
    rw [htotal', Except.map, hvalue', hvalue, hnearest'.unique hnearest]
  · intro hlines
    rw [checkClose_zeroTotal_iff htotal hlines, hvalue]
    rw [div_le_iff₀ (by norm_num), zero_mul]
    exact_mod_cast Iff.rfl

/-- Two lines of which the total is halfway between two amounts: half a piece for `1.10` with
ten percent of tax, less one cent. -/
def halfway : Document :=
  { id := default, tenant := default, status := .opened, number := none, party := none
    documentType := none, closedAt := none, version := 1, created := default, updated := default
    lines := [⟨1, "", ofParts 5 1, ofParts 110 2, ofParts 10 0⟩,
      ⟨2, "", ofParts (-1) 0, ofParts 1 2, ofParts 0 0⟩] }

theorem exact_halfway : halfway.Exact := by
  constructor
  · intro l hl
    simp only [halfway, List.mem_cons, List.not_mem_nil, or_false] at hl
    rcases hl with rfl | rfl
    · exact ⟨⟨ofParts 55 2, by decide +kernel⟩, ⟨ofParts 55 1, by decide +kernel⟩,
        ⟨ofParts 55 3, by decide +kernel⟩, ⟨ofParts 605 3, by decide +kernel⟩⟩
    · exact ⟨⟨ofParts (-1) 2, by decide +kernel⟩, ⟨zero, by decide +kernel⟩,
        ⟨zero, by decide +kernel⟩, ⟨ofParts (-1) 2, by decide +kernel⟩⟩
  · intro first hfirst
    rw [← List.mem_inits] at hfirst
    simp only [halfway, List.inits, List.map_cons, List.map_nil, List.mem_cons,
      List.not_mem_nil, or_false] at hfirst
    rcases hfirst with rfl | rfl | rfl
    · exact ⟨zero, by decide +kernel⟩
    · exact ⟨ofParts 605 3, by decide +kernel⟩
    · exact ⟨ofParts 595 3, by decide +kernel⟩

/-- The exact sum `0.595` is as close to `0.59` as to `0.60`, which is the even one. -/
theorem total_rounded_once_halfway :
    ∃ total, halfway.grossTotal = .ok total ∧ total.toRat = 3 / 5 ∧
      ¬ ∃ o, halfway.checkClose = .ok (.rejected o) ∧ o.kind = .zeroTotal := by
  obtain ⟨total, n, htotal, hvalue, hnearest, -, hclose⟩ := total_rounded_once exact_halfway
  have hsum : 100 * halfway.amount = 119 / 2 := by decide +kernel
  have heven : Nearest (119 / 2) 60 := by
    constructor
    · norm_num
    · exact fun _ => by decide
  rw [hsum] at hnearest
  cases hnearest.unique heven
  refine ⟨total, htotal, ?_, ?_⟩
  · rw [hvalue]
    norm_num
  · rw [hclose (by decide)]
    decide

end Document

end Docket
