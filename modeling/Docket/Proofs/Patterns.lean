import Docket.Proofs.Layout
import Docket.Proofs.Substitution
import Docket.Proofs.WellFormed

/-! # Numbers with a pattern

The parts that come before the number cannot take the place of its word away, even if they bring
braces of their own. What stands in that place at the end is the padded value, once or more often,
so numbers of one pattern look alike only if they have the same value.
-/

namespace Docket.Issuing

open Docket.Text

namespace Placeholder

theorem ledBy_word (p : Placeholder) : LedBy '{' p.word := by
  cases p <;> exact ⟨_, rfl, by decide⟩

theorem word_not_isPrefix : ∀ {p q : Placeholder}, p ≠ q → ¬ p.word <+: q.word := by
  intro p q
  cases p <;> cases q <;> decide

end Placeholder

namespace Snapshot

variable {s : Snapshot} {pattern : List Char}

/-- A pattern with some of the parts in the places of their words. -/
def fillWith (s : Snapshot) (parts : List Placeholder) (pattern : List Char) : List Char :=
  parts.foldl (fun text p => replaceAll p.word (s.part p) text) pattern

/-- The word for a part stays in a pattern until it is the turn of that part. -/
theorem occurs_fillWith {parts : List Placeholder} {q : Placeholder} (hq : q ∉ parts)
    (h : occurs q.word pattern = true) : occurs q.word (s.fillWith parts pattern) = true := by
  induction parts generalizing pattern with
  | nil => exact h
  | cons p parts ih =>
    rw [List.mem_cons, not_or] at hq
    obtain ⟨hqp, hq⟩ := hq
    apply ih hq
    exact occurs_replaceAll p.ledBy_word q.ledBy_word
      (Placeholder.word_not_isPrefix (Ne.symm hqp)) (Placeholder.word_not_isPrefix hqp) _ h

/-- A pattern in which the number is all that is missing. -/
def template (s : Snapshot) (pattern : List Char) : List Char :=
  s.fillWith [.lead, .series, .year] pattern

/-- The value of a number shows in the last part only. -/
theorem fill_of_value (s : Snapshot) (value : Int) (pattern : List Char) :
    { s with value := value }.fill pattern
      = replaceAll Placeholder.number.word (padded s.padding value) (s.template pattern) := rfl

theorem text_of_pattern {given : String} (h : s.pattern = some given) :
    s.text = String.ofList (s.fill given.toList) := by
  rw [text, chars, h]

section Numbered

variable (h : occurs Placeholder.number.word pattern = true)

include h

theorem occurs_template (s : Snapshot) :
    occurs Placeholder.number.word (s.template pattern) = true :=
  occurs_fillWith (by decide) h

theorem fill_injective (s : Snapshot) (v w : Int) :
    { s with value := v }.fill pattern = { s with value := w }.fill pattern ↔ v = w := by
  rw [fill_of_value, fill_of_value,
    replaceAll_injective Placeholder.number.ledBy_word.ne_nil (occurs_template h s)]
  constructor
  · exact padded_injective
  · rintro rfl
    rfl

theorem padded_infix_fill (s : Snapshot) : padded s.padding s.value <:+: s.fill pattern := by
  have hinfix := infix_replaceAll Placeholder.number.ledBy_word.ne_nil (occurs_template h s)
  exact hinfix (padded s.padding s.value)

end Numbered

end Snapshot

/-- Numbers that are shown with a pattern that was accepted look different if their values differ,
whatever lead, series and year go with them, and show the padded value. -/
theorem patterned_numbers_differ {settings : CounterSettings} {pattern : String}
    (hsettings : checkSettings settings = .ok ()) (hpattern : settings.pattern = some pattern)
    (s : Snapshot) (hs : s.pattern = some pattern) :
    (∀ v w, { s with value := v }.text = { s with value := w }.text ↔ v = w) ∧
      ∃ before after, s.text = before ++ String.ofList (padded s.padding s.value) ++ after := by
  have hoccurs : occurs Placeholder.number.word pattern.toList = true :=
    occurs_iff.mpr (pattern_of_checkSettings hsettings pattern hpattern)
  constructor
  · intro v w
    have htext : ∀ value, { s with value := value }.text
        = String.ofList ({ s with value := value }.fill pattern.toList) :=
      fun _ => Snapshot.text_of_pattern hs
    rw [htext, htext, String.ofList_inj]
    exact Snapshot.fill_injective hoccurs s v w
  · obtain ⟨before, after, h⟩ := Snapshot.padded_infix_fill hoccurs s
    refine ⟨String.ofList before, String.ofList after, ?_⟩
    rw [Snapshot.text_of_pattern hs, ← h, String.ofList_append, String.ofList_append]

/-- A number whose lead and series bring words and parts of words into the pattern. -/
def bracedNumber : Snapshot :=
  { lead := some "\x7bNUMBER\x7d\x7bSERIES\x7d"
    series := "\x7bYEAR\x7d\x7bNUM"
    year := none
    value := -7
    padding := 4
    pattern := some "\x7bPREFIX\x7dBER\x7d/\x7bNUMBER\x7d" }

theorem patterned_numbers_differ_braced :
    (∀ v w, { bracedNumber with value := v }.text = { bracedNumber with value := w }.text ↔ v = w) ∧
      ∃ before after, bracedNumber.text = before ++ "-007" ++ after := by
  let settings : CounterSettings := { pattern := bracedNumber.pattern }
  have hsettings : checkSettings settings = .ok () := by decide +kernel
  exact patterned_numbers_differ hsettings rfl bracedNumber rfl

/-- The number shows wherever its word was, and where its word has come together. -/
example : bracedNumber.text = "-007-007/-007" := by decide +kernel

end Docket.Issuing
