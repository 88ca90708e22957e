/-! # Texts

Blank characters are those of white space in the Unicode standard; they are trimmed from the ends of
user names, reasons and settings. Words in a text are found from the left and without overlap; the
text that is put in their place is not searched again.
-/

namespace Docket.Text

/-! ## Blanks -/

/-- Closed ranges of the code points with the property `White_Space`. -/
def blankRanges : List (Nat × Nat) :=
  [(0x0009, 0x000D), (0x0020, 0x0020), (0x0085, 0x0085), (0x00A0, 0x00A0), (0x1680, 0x1680),
   (0x2000, 0x200A), (0x2028, 0x2029), (0x202F, 0x202F), (0x205F, 0x205F), (0x3000, 0x3000)]

def isBlankChar (c : Char) : Bool :=
  blankRanges.any fun (low, high) => decide (low ≤ c.toNat ∧ c.toNat ≤ high)

def isBlank (s : String) : Bool := s.toList.all isBlankChar

def trimStart (cs : List Char) : List Char := cs.dropWhile isBlankChar

def trim (cs : List Char) : List Char := (trimStart (trimStart cs).reverse).reverse

/-! ## Substitution -/

/-- Text with the occurrences of `word` replaced. An empty word occurs nowhere. -/
def replaceAll (word given : List Char) : List Char → List Char
  | [] => []
  | c :: cs =>
    if word ≠ [] ∧ word.isPrefixOf (c :: cs) then
      given ++ replaceAll word given (cs.drop (word.length - 1))
    else c :: replaceAll word given cs
termination_by cs => cs.length
decreasing_by
  · simp only [List.length_drop, List.length_cons]; omega
  · simp only [List.length_cons]; omega

def occurs (word : List Char) : List Char → Bool
  | [] => word.isEmpty
  | c :: cs => word.isPrefixOf (c :: cs) || occurs word cs

theorem occurs_iff {word cs : List Char} :
    occurs word cs = true ↔ ∃ before after, cs = before ++ word ++ after := by
  induction cs with
  | nil =>
    simp only [occurs, List.isEmpty_iff]
    constructor
    · rintro rfl
      exact ⟨[], [], rfl⟩
    · rintro ⟨b, t, h⟩
      simp only [List.nil_eq, List.append_eq_nil_iff] at h
      exact h.1.2
  | cons c cs ih =>
    simp only [occurs, Bool.or_eq_true, List.isPrefixOf_iff_prefix, ih]
    constructor
    · rintro (⟨t, h⟩ | ⟨b, t, h⟩)
      · exact ⟨[], t, by simp [h]⟩
      · exact ⟨c :: b, t, by simp [h]⟩
    · rintro ⟨b, t, h⟩
      cases b with
      | nil => exact .inl ⟨t, by simpa using h.symm⟩
      | cons d b =>
        simp only [List.cons_append, List.cons.injEq] at h
        exact .inr ⟨b, t, h.2⟩

end Docket.Text
