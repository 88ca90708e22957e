import Mathlib.Data.Int.ConditionallyCompleteOrder
import Mathlib.Data.Prod.Lex
import Mathlib.Data.String.Basic
import Mathlib.Order.WithBot
import Docket.Proofs.Bytes
import Docket.Proofs.Lookup

/-! # The order of listed counters

Counters are listed by the bytes of their document types, then by those of their series and then by
their years, none before all. Since no two live counters of a tenant have one key, each of them
stands at a place of its own.
-/

namespace Docket

open Store

theorem Id.value_injective {a b : Id} (h : a.value = b.value) : a = b := by
  obtain ⟨v, hv⟩ := a
  obtain ⟨w, hw⟩ := b
  obtain rfl : v = w := h
  rfl

namespace CounterKey

/-- The order of keys by the bytes of their parts; no year comes before all years. -/
def Precedes (a b : CounterKey) : Prop :=
  a.documentType.bytes < b.documentType.bytes ∨
    a.documentType = b.documentType ∧
      (Text.bytes a.series < Text.bytes b.series ∨
        a.series = b.series ∧ ∃ y ∈ b.year, ∀ x ∈ a.year, x < y)

/-- The place of a year, of which none is the least. -/
def yearRank : Option Int → WithBot ℤ
  | none => ⊥
  | some y => y

/-- The same order in numbers and texts. -/
def rank (k : CounterKey) : ℕ ×ₗ String ×ₗ WithBot ℤ :=
  toLex (k.documentType.value, toLex (k.series, yearRank k.year))

variable {a b : CounterKey}

theorem yearRank_injective {x y : Option Int} (h : yearRank x = yearRank y) : x = y := by
  cases x with
  | none =>
    cases y with
    | none => rfl
    | some y => exact absurd h.symm (WithBot.coe_ne_bot)
  | some x =>
    cases y with
    | none => exact absurd h WithBot.coe_ne_bot
    | some y => exact congrArg some (WithBot.coe_injective h)

theorem rank_injective (h : a.rank = b.rank) : a = b := by
  obtain ⟨hvalue, hrest⟩ := Prod.ext_iff.mp (toLex.injective h)
  obtain ⟨hseries, hyear⟩ := Prod.ext_iff.mp (toLex.injective hrest)
  have htype : a.documentType = b.documentType := Id.value_injective hvalue
  have hseries : a.series = b.series := hseries
  have hyear : a.year = b.year := yearRank_injective hyear
  calc
    a = ⟨a.documentType, a.series, a.year⟩ := rfl
    _ = ⟨b.documentType, b.series, b.year⟩ := by rw [htype, hseries, hyear]

theorem precedes_of_rank_lt (h : a.rank < b.rank) : a.Precedes b := by
  rcases Prod.Lex.toLex_lt_toLex.mp h with hvalue | ⟨hvalue, hrest⟩
  · exact Or.inl (Id.bytes_lt hvalue)
  refine Or.inr ⟨Id.value_injective hvalue, ?_⟩
  rcases Prod.Lex.toLex_lt_toLex.mp hrest with hseries | ⟨hseries, hyear⟩
  · exact Or.inl (Text.bytes_lt hseries)
  refine Or.inr ⟨hseries, ?_⟩
  change yearRank a.year < yearRank b.year at hyear
  cases hb : b.year with
  | none =>
    rw [hb] at hyear
    exact absurd hyear not_lt_bot
  | some y =>
    refine ⟨y, rfl, fun x hx => ?_⟩
    rw [hb, Option.mem_def.mp hx] at hyear
    exact WithBot.coe_lt_coe.mp hyear

end CounterKey

namespace Store

variable {s : Store} {tenant : Id} {a b : CounterRow}

theorem listedBefore_iff : listedBefore a b = true ↔ a.key.rank ≤ b.key.rank := by
  rw [CounterKey.rank, CounterKey.rank, Prod.Lex.toLex_le_toLex, Prod.Lex.toLex_le_toLex]
  change _ ↔ a.documentType.value < b.documentType.value ∨
    a.documentType.value = b.documentType.value ∧ (a.series < b.series ∨
      a.series = b.series ∧ CounterKey.yearRank a.year ≤ CounterKey.yearRank b.year)
  by_cases htype : a.documentType = b.documentType
  · by_cases hseries : a.series = b.series
    · rw [listedBefore, if_neg (not_not.mpr htype), if_neg (not_not.mpr hseries), htype, hseries]
      simp only [lt_irrefl, false_or, true_and]
      cases a.year with
      | none => exact iff_of_true rfl bot_le
      | some x =>
        cases b.year with
        | none => exact iff_of_false Bool.false_ne_true (WithBot.not_coe_le_bot x)
        | some y => exact decide_eq_true_iff.trans WithBot.coe_le_coe.symm
    · rw [listedBefore, if_neg (not_not.mpr htype), if_pos hseries, decide_eq_true_iff, htype]
      simp only [lt_irrefl, false_or, true_and, hseries, false_and, or_false]
  · have hvalue : a.documentType.value ≠ b.documentType.value :=
      fun h => htype (Id.value_injective h)
    rw [listedBefore, if_pos htype, Id.le, decide_eq_true_iff]
    simp only [hvalue, false_and, or_false]
    omega

theorem Lawful.pairwise_listed (hs : s.Lawful) (tenant : Id) :
    ((s.liveCounters tenant).mergeSort listedBefore).Pairwise
      fun a b => a.key.Precedes b.key := by
  have hsorted : ((s.liveCounters tenant).mergeSort listedBefore).Pairwise
      fun a b => listedBefore a b = true := by
    refine List.pairwise_mergeSort (fun a b c hab hbc => ?_) (fun a b => ?_) _
    · rw [listedBefore_iff] at hab hbc ⊢
      exact le_trans hab hbc
    · rw [Bool.or_eq_true, listedBefore_iff, listedBefore_iff]
      exact le_total _ _
  have hnodup : ((s.liveCounters tenant).mergeSort listedBefore).Nodup :=
    (List.mergeSort_perm _ _).nodup_iff.mpr (hs.nodup_counters.filter _)
  refine (hsorted.and hnodup).imp_of_mem fun {a b} ha hb ⟨hab, hne⟩ => ?_
  rw [List.mem_mergeSort] at ha hb
  refine CounterKey.precedes_of_rank_lt (lt_of_le_of_ne (listedBefore_iff.mp hab) fun hrank => ?_)
  exact hne (hs.eq_of_key ha hb (CounterKey.rank_injective hrank))

end Store

end Docket
