import Mathlib.Data.List.Infix
import Docket.Text.Basic

/-! # What substitution leaves of a text

A text is cut at the occurrences of a word that are replaced, and joined again with what is given
for the word. Two results from one text are therefore the same only if the same was given, unless
the word does not occur. A word is found again after another one was replaced if the two cannot
overlap.
-/

namespace Docket.Text

variable {c : Char} {word other given text rest : List Char}

theorem replaceAll_append_word (hword : word ≠ []) (given rest : List Char) :
    replaceAll word given (word ++ rest) = given ++ replaceAll word given rest := by
  obtain ⟨d, tail, rfl⟩ := List.exists_cons_of_ne_nil hword
  have hprefix : (d :: tail).isPrefixOf (d :: (tail ++ rest)) = true :=
    List.isPrefixOf_iff_prefix.mpr (List.prefix_append (d :: tail) rest)
  rw [List.cons_append, replaceAll, if_pos ⟨hword, hprefix⟩]
  simp

theorem replaceAll_cons_of_not_isPrefix (h : ¬ word <+: c :: rest) (given : List Char) :
    replaceAll word given (c :: rest) = c :: replaceAll word given rest := by
  rw [replaceAll, if_neg]
  rintro ⟨-, hprefix⟩
  exact h (List.isPrefixOf_iff_prefix.mp hprefix)

/-- Induction along a text that takes each occurrence of a word, from the left and without overlap,
in one step. -/
theorem induction_on_word {motive : List Char → Prop} (hword : word ≠ []) (nil : motive [])
    (append : ∀ rest, motive rest → motive (word ++ rest))
    (cons : ∀ c rest, ¬ word <+: c :: rest → motive rest → motive (c :: rest))
    (text : List Char) : motive text := by
  induction text using replaceAll.induct word with
  | case1 => exact nil
  | case2 c cs h ih =>
    obtain ⟨rest, hrest⟩ := List.isPrefixOf_iff_prefix.mp h.2
    obtain ⟨d, tail, rfl⟩ := List.exists_cons_of_ne_nil hword
    obtain ⟨rfl, rfl⟩ := List.cons.inj hrest
    have hdrop : (tail ++ rest).drop ((d :: tail).length - 1) = rest := by simp
    exact append rest (hdrop ▸ ih)
  | case3 c cs h ih =>
    exact cons c cs (fun hprefix => h ⟨hword, List.isPrefixOf_iff_prefix.mpr hprefix⟩) ih

theorem occurs_of_isPrefix (h : word <+: text) : occurs word text = true := by
  obtain ⟨after, rfl⟩ := h
  exact occurs_iff.mpr ⟨[], after, rfl⟩

theorem occurs_append_left (h : occurs word rest = true) (before : List Char) :
    occurs word (before ++ rest) = true := by
  obtain ⟨middle, after, rfl⟩ := occurs_iff.mp h
  exact occurs_iff.mpr ⟨before ++ middle, after, by simp⟩

theorem occurs_cons_iff :
    occurs word (c :: rest) = true ↔ word <+: c :: rest ∨ occurs word rest = true := by
  rw [occurs, Bool.or_eq_true, List.isPrefixOf_iff_prefix]

/-! ## The parts of a text between the occurrences of a word -/

theorem intercalate_cons_cons_append (separator piece : List Char) (pieces : List (List Char)) :
    separator.intercalate ((c :: piece) :: pieces)
      = c :: separator.intercalate (piece :: pieces) := by
  cases pieces with
  | nil => simp
  | cons next pieces => simp

theorem length_intercalate (separator piece : List Char) (pieces : List (List Char)) :
    (separator.intercalate (piece :: pieces)).length
      = (piece :: pieces).flatten.length + pieces.length * separator.length := by
  induction pieces generalizing piece with
  | nil => simp
  | cons next pieces ih =>
    rw [List.intercalate_cons_cons, List.length_append, List.length_append, ih]
    simp only [List.flatten_cons, List.length_append, List.length_cons, Nat.add_mul]
    omega

theorem intercalate_injective {piece next : List Char} {pieces : List (List Char)}
    (h : given.intercalate (piece :: next :: pieces)
      = other.intercalate (piece :: next :: pieces)) :
    given = other := by
  have hlength : given.length = other.length := by
    have hsum := congrArg List.length h
    rw [length_intercalate, length_intercalate] at hsum
    exact Nat.eq_of_mul_eq_mul_left (Nat.succ_pos pieces.length) (Nat.add_left_cancel hsum)
  rw [List.intercalate_cons_cons, List.intercalate_cons_cons, List.append_assoc,
    List.append_assoc] at h
  exact (List.append_inj (List.append_cancel_left h) hlength).1

/-- The parts of a text do not depend on what is given for the word, and there are two of them at
least if the word occurs. -/
theorem exists_replaceAll_eq_intercalate (hword : word ≠ []) (text : List Char) :
    ∃ piece pieces, (∀ given, replaceAll word given text = given.intercalate (piece :: pieces)) ∧
      (occurs word text = true → pieces ≠ []) := by
  induction text using induction_on_word hword with
  | nil =>
    refine ⟨[], [], fun given => ?_, fun h => ?_⟩
    · simp [replaceAll]
    · exact absurd (List.isEmpty_iff.mp h) hword
  | append rest ih =>
    obtain ⟨piece, pieces, hrest, -⟩ := ih
    refine ⟨[], piece :: pieces, fun given => ?_, fun _ => List.cons_ne_nil _ _⟩
    rw [replaceAll_append_word hword, hrest, List.intercalate_cons_cons, List.nil_append]
  | cons c rest hprefix ih =>
    obtain ⟨piece, pieces, hrest, hoccurs⟩ := ih
    refine ⟨c :: piece, pieces, fun given => ?_, fun h => ?_⟩
    · rw [replaceAll_cons_of_not_isPrefix hprefix, hrest, intercalate_cons_cons_append]
    · exact hoccurs ((occurs_cons_iff.mp h).resolve_left hprefix)

theorem exists_pieces (hword : word ≠ []) (h : occurs word text = true) :
    ∃ piece next pieces,
      ∀ given, replaceAll word given text = given.intercalate (piece :: next :: pieces) := by
  obtain ⟨piece, pieces, heq, hpieces⟩ := exists_replaceAll_eq_intercalate hword text
  obtain ⟨next, pieces, rfl⟩ := List.exists_cons_of_ne_nil (hpieces h)
  exact ⟨piece, next, pieces, heq⟩

theorem replaceAll_injective (hword : word ≠ []) (h : occurs word text = true) :
    replaceAll word given text = replaceAll word other text ↔ given = other := by
  obtain ⟨piece, next, pieces, heq⟩ := exists_pieces hword h
  rw [heq, heq]
  constructor
  · exact intercalate_injective
  · rintro rfl
    rfl

theorem infix_replaceAll (hword : word ≠ []) (h : occurs word text = true) (given : List Char) :
    given <:+: replaceAll word given text := by
  obtain ⟨piece, next, pieces, heq⟩ := exists_pieces hword h
  rw [heq, List.intercalate_cons_cons]
  exact ⟨piece, _, rfl⟩

/-! ## Words that do not overlap -/

/-- A word shows its first character nowhere else. -/
def LedBy (c : Char) (word : List Char) : Prop := ∃ body, word = c :: body ∧ c ∉ body

theorem LedBy.ne_nil (h : LedBy c word) : word ≠ [] := by
  obtain ⟨body, rfl, -⟩ := h
  exact List.cons_ne_nil c body

theorem not_prefix_append (hword : ¬ word <+: other) (hother : ¬ other <+: word)
    (rest : List Char) : ¬ word <+: other ++ rest := by
  intro h
  rcases List.prefix_or_prefix_of_prefix h (List.prefix_append other rest) with h | h
  · exact hword h
  · exact hother h

theorem LedBy.replaceAll_append (hword : LedBy c word) {before : List Char} (hbefore : c ∉ before)
    (given rest : List Char) :
    replaceAll word given (before ++ rest) = before ++ replaceAll word given rest := by
  obtain ⟨body, rfl, -⟩ := hword
  induction before with
  | nil => rfl
  | cons d before ih =>
    rw [List.mem_cons, not_or] at hbefore
    obtain ⟨hd, hbefore⟩ := hbefore
    rw [List.cons_append, replaceAll_cons_of_not_isPrefix, ih hbefore, List.cons_append]
    rw [List.cons_prefix_cons]
    exact fun h => hd h.1

section Apart

variable (hword : LedBy c word) (hother : LedBy c other) (hne : ¬ word <+: other)
  (hne' : ¬ other <+: word)

include hword hother hne hne'

/-- A word that begins with the same character, and is not the same at its beginning, is left as it
is. -/
theorem replaceAll_append_other (given rest : List Char) :
    replaceAll word given (other ++ rest) = other ++ replaceAll word given rest := by
  have hprefix := not_prefix_append hne hne' rest
  obtain ⟨body, rfl, hbody⟩ := hother
  rw [List.cons_append] at hprefix ⊢
  rw [replaceAll_cons_of_not_isPrefix hprefix, hword.replaceAll_append hbody, List.cons_append]

theorem occurs_of_occurs_append (h : occurs other (word ++ rest) = true) :
    occurs other rest = true := by
  obtain ⟨before, after, heq⟩ := occurs_iff.mp h
  rw [List.append_assoc, List.append_eq_append_iff] at heq
  rcases heq with ⟨middle, rfl, rfl⟩ | ⟨overlap, hoverlap, heq⟩
  · exact occurs_append_left (occurs_of_isPrefix (List.prefix_append other after)) middle
  · cases before with
    | nil =>
      obtain rfl : word = overlap := hoverlap
      exact absurd ⟨rest, heq.symm⟩ (not_prefix_append hne hne' after)
    | cons d before =>
      obtain ⟨body, rfl, hbody⟩ := hword
      obtain ⟨-, rfl⟩ := List.cons.inj hoverlap
      cases overlap with
      | nil => exact occurs_of_isPrefix ⟨after, heq⟩
      | cons e overlap =>
        -- The other word would begin within the body of the first one.
        obtain ⟨body, rfl, -⟩ := hother
        obtain ⟨rfl, -⟩ := List.cons.inj heq
        exact absurd (List.mem_append_right before List.mem_cons_self) hbody

/-- A word is not lost where another one is replaced that cannot overlap it. -/
theorem occurs_replaceAll (given : List Char) (h : occurs other text = true) :
    occurs other (replaceAll word given text) = true := by
  induction text using induction_on_word hword.ne_nil with
  | nil => exact absurd (List.isEmpty_iff.mp h) hother.ne_nil
  | append rest ih =>
    rw [replaceAll_append_word hword.ne_nil]
    exact occurs_append_left (ih (occurs_of_occurs_append hword hother hne hne' h)) given
  | cons d rest hprefix ih =>
    rcases occurs_cons_iff.mp h with ⟨after, hafter⟩ | h
    · rw [← hafter, replaceAll_append_other hword hother hne hne']
      exact occurs_of_isPrefix (List.prefix_append _ _)
    · rw [replaceAll_cons_of_not_isPrefix hprefix]
      exact occurs_append_left (ih h) [d]

end Apart

end Docket.Text
