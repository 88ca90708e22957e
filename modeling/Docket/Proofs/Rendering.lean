import Docket.Proofs.Patterns

/-! # Patterns that are read once

A pattern is filled by going over the whole text once for each part, and what an earlier part has
brought in is searched again. If every opening brace of the pattern begins one of the words, and no
part brings such a brace, then no word comes up or gets lost on the way: the number is the one that
a single reading of the pattern gives, from left to right.
-/

namespace Docket.Issuing

open Docket.Text

namespace Placeholder

def opening? (text : List Char) : Option Placeholder :=
  all.find? fun p => p.word.isPrefixOf text

theorem mem_all (p : Placeholder) : p ∈ all := by
  cases p <;> decide

theorem length_word_pos (p : Placeholder) : 0 < p.word.length := by
  cases p <;> decide

theorem eq_of_isPrefix {p q : Placeholder} {text : List Char} (hp : p.word <+: text)
    (hq : q.word <+: text) : p = q := by
  by_contra hne
  rcases List.prefix_or_prefix_of_prefix hp hq with h | h
  · exact word_not_isPrefix hne h
  · exact word_not_isPrefix (Ne.symm hne) h

theorem isPrefix_of_opening? {p : Placeholder} {text : List Char} (h : opening? text = some p) :
    p.word <+: text := by
  unfold opening? at h
  have hfound := List.find?_some h
  exact List.isPrefixOf_iff_prefix.mp hfound

theorem opening?_append (p : Placeholder) (rest : List Char) :
    opening? (p.word ++ rest) = some p := by
  have hprefix : p.word <+: p.word ++ rest := List.prefix_append p.word rest
  cases h : opening? (p.word ++ rest) with
  | none =>
    have hnone := List.find?_eq_none.mp h p p.mem_all
    exact absurd (List.isPrefixOf_iff_prefix.mpr hprefix) hnone
  | some q => rw [eq_of_isPrefix (isPrefix_of_opening? h) hprefix]

theorem opening?_cons {c : Char} (hc : c ≠ '{') (rest : List Char) :
    opening? (c :: rest) = none := by
  apply List.find?_eq_none.mpr
  intro p _ hprefix
  obtain ⟨body, hword, -⟩ := p.ledBy_word
  rw [hword, List.isPrefixOf_iff_prefix, List.cons_prefix_cons] at hprefix
  exact hc hprefix.1.symm

end Placeholder

/-- Every opening brace of a text begins one of the words. -/
def Braced (text : List Char) : Prop :=
  ∀ rest, '{' :: rest <:+ text → ∃ p : Placeholder, p.word <+: '{' :: rest

instance (text : List Char) : Decidable (Braced text) :=
  decidable_of_iff
    (∀ t ∈ text.tails, t.head? = some '{' → ∃ p ∈ Placeholder.all, p.word <+: t) <| by
    constructor
    · intro h rest hrest
      obtain ⟨p, -, hp⟩ := h _ ((List.mem_tails _ _).mpr hrest) rfl
      exact ⟨p, hp⟩
    · intro h t ht hhead
      obtain ⟨rest, rfl⟩ := List.head?_eq_some_iff.mp hhead
      obtain ⟨p, hp⟩ := h rest ((List.mem_tails _ _).mp ht)
      exact ⟨p, p.mem_all, hp⟩

theorem Braced.of_suffix {text rest : List Char} (h : Braced text) (hrest : rest <:+ text) :
    Braced rest :=
  fun _ ht => h _ (ht.trans hrest)

/-- What a pattern is made of: a character that stands for itself, or the word for a part. -/
inductive Piece where
  | plain (c : Char) (ordinary : c ≠ '{')
  | hole (p : Placeholder)

def written (pieces : List Piece) : List Char :=
  pieces.flatMap fun
    | .plain c _ => [c]
    | .hole p => p.word

theorem Braced.exists_pieces {text : List Char} (h : Braced text) :
    ∃ pieces, written pieces = text := by
  induction hlength : text.length using Nat.strong_induction_on generalizing text with
  | h n ih =>
    cases text with
    | nil => exact ⟨[], rfl⟩
    | cons c rest =>
      subst hlength
      by_cases hc : c = '{'
      · subst hc
        obtain ⟨p, after, hafter⟩ := h rest List.suffix_rfl
        have hlt : after.length < ('{' :: rest).length := by
          have hpos := p.length_word_pos
          rw [← hafter, List.length_append]
          omega
        obtain ⟨pieces, rfl⟩ := ih _ hlt (h.of_suffix ⟨p.word, hafter⟩) rfl
        exact ⟨.hole p :: pieces, hafter⟩
      · have hlt : rest.length < (c :: rest).length := Nat.lt_succ_self rest.length
        obtain ⟨pieces, rfl⟩ := ih _ hlt (h.of_suffix (List.suffix_cons c rest)) rfl
        exact ⟨.plain c hc :: pieces, rfl⟩

namespace Snapshot

/-- The words of patterns with the texts that they stand for. A lead or a year that is not there
stands for an empty text. -/
def meanings (s : Snapshot) : List (List Char × List Char) :=
  [("\x7bPREFIX\x7d".toList, match s.lead with | some lead => lead.toList | none => []),
   ("\x7bSERIES\x7d".toList, s.series.toList),
   ("\x7bYEAR\x7d".toList, match s.year with | some year => numeral year | none => []),
   ("\x7bNUMBER\x7d".toList, padded s.padding s.value)]

/-- The number that comes of reading a pattern once, from left to right: the text that it stands for
in the place of each word, and every other character as it is. -/
def rendered (s : Snapshot) : List Char → List Char
  | [] => []
  | c :: cs =>
    match s.meanings.find? fun (word, _) => word.isPrefixOf (c :: cs) with
    | some (word, meaning) => meaning ++ s.rendered (cs.drop (word.length - 1))
    | none => c :: s.rendered cs
termination_by cs => cs.length
decreasing_by
  · simp only [List.length_drop, List.length_cons]; omega
  · simp only [List.length_cons]; omega

/-- What a piece of a pattern shows once some of the parts have taken the places of their words. -/
def shown (s : Snapshot) (done : List Placeholder) : Piece → List Char
  | .plain c _ => [c]
  | .hole p => if p ∈ done then s.part p else p.word

variable {s : Snapshot}

theorem meanings_eq (s : Snapshot) :
    s.meanings = Placeholder.all.map fun p => (p.word, s.part p) := by
  have hlead : s.part .lead = match s.lead with | some lead => lead.toList | none => [] := by
    simp only [part]
    cases s.lead <;> rfl
  have hyear : s.part .year = match s.year with | some year => numeral year | none => [] := by
    simp only [part]
    cases s.year <;> rfl
  rw [meanings, ← hlead, ← hyear]
  rfl

theorem find?_meanings (s : Snapshot) (text : List Char) :
    (s.meanings.find? fun (word, _) => word.isPrefixOf text)
      = (Placeholder.opening? text).map fun p => (p.word, s.part p) := by
  rw [meanings_eq, List.find?_map]
  rfl

theorem rendered_plain {c : Char} (hc : c ≠ '{') (rest : List Char) :
    s.rendered (c :: rest) = c :: s.rendered rest := by
  rw [rendered, find?_meanings, Placeholder.opening?_cons hc]
  rfl

theorem rendered_hole (p : Placeholder) (rest : List Char) :
    s.rendered (p.word ++ rest) = s.part p ++ s.rendered rest := by
  have hopening := p.opening?_append rest
  obtain ⟨body, hword, -⟩ := p.ledBy_word
  rw [hword, List.cons_append] at hopening ⊢
  rw [rendered, find?_meanings, hopening]
  simp [hword]

theorem rendered_written (pieces : List Piece) :
    s.rendered (written pieces) = pieces.flatMap (s.shown Placeholder.all) := by
  induction pieces with
  | nil => rw [written, List.flatMap_nil, rendered, List.flatMap_nil]
  | cons piece pieces ih =>
    cases piece with
    | plain c hc => exact (rendered_plain hc _).trans (congrArg (c :: ·) ih)
    | hole p =>
      have hshown : s.shown Placeholder.all (.hole p) = s.part p := if_pos p.mem_all
      rw [List.flatMap_cons, hshown, ← ih]
      exact rendered_hole p _

/-- The turn of one part: earlier parts bring no brace, so they are left as they are, and the words
of later parts do not overlap the word of this one. -/
theorem replaceAll_shown (hpart : ∀ q, '{' ∉ s.part q) {done : List Placeholder} {p : Placeholder}
    (hp : p ∉ done) (pieces : List Piece) :
    replaceAll p.word (s.part p) (pieces.flatMap (s.shown done))
      = pieces.flatMap (s.shown (p :: done)) := by
  induction pieces with
  | nil => rw [List.flatMap_nil, replaceAll, List.flatMap_nil]
  | cons piece pieces ih =>
    rw [List.flatMap_cons, List.flatMap_cons, ← ih]
    cases piece with
    | plain c hc =>
      apply p.ledBy_word.replaceAll_append
      simpa [shown] using hc.symm
    | hole q =>
      by_cases hq : q ∈ done
      · have hshown : s.shown (p :: done) (.hole q) = s.part q := if_pos (List.mem_cons_of_mem p hq)
        rw [shown, if_pos hq, hshown]
        exact p.ledBy_word.replaceAll_append (hpart q) _ _
      · rw [shown, if_neg hq]
        by_cases hqp : q = p
        · subst hqp
          have hshown : s.shown (q :: done) (.hole q) = s.part q := if_pos List.mem_cons_self
          rw [hshown]
          exact replaceAll_append_word q.ledBy_word.ne_nil _ _
        · have hshown : s.shown (p :: done) (.hole q) = q.word :=
            if_neg (by simp [hqp, hq])
          rw [hshown]
          exact replaceAll_append_other p.ledBy_word q.ledBy_word
            (Placeholder.word_not_isPrefix (Ne.symm hqp)) (Placeholder.word_not_isPrefix hqp) _ _

theorem fillWith_shown (hpart : ∀ q, '{' ∉ s.part q) {parts done : List Placeholder}
    (hnodup : (parts.reverse ++ done).Nodup) (pieces : List Piece) :
    s.fillWith parts (pieces.flatMap (s.shown done))
      = pieces.flatMap (s.shown (parts.reverse ++ done)) := by
  induction parts generalizing done with
  | nil => rfl
  | cons p parts ih =>
    rw [List.reverse_cons, List.append_assoc] at hnodup ⊢
    have hp : p ∉ done := by
      have hcons := hnodup.of_append_right
      exact (List.nodup_cons.mp hcons).1
    change s.fillWith parts (replaceAll p.word (s.part p) _) = _
    rw [replaceAll_shown hpart hp]
    exact ih hnodup

theorem fill_written (hpart : ∀ q, '{' ∉ s.part q) (pieces : List Piece) :
    s.fill (written pieces) = s.rendered (written pieces) := by
  have hnone : written pieces = pieces.flatMap (s.shown []) := by
    apply List.flatMap_congr
    rintro (⟨c, hc⟩ | p) - <;> rfl
  have hall : s.shown (Placeholder.all.reverse ++ []) = s.shown Placeholder.all := by
    funext piece
    cases piece with
    | plain => rfl
    | hole p => simp [shown, p.mem_all]
  rw [rendered_written, hnone, ← hall]
  exact fillWith_shown hpart (by decide) pieces

theorem brace_not_mem_part (hlead : ∀ lead ∈ s.lead, '{' ∉ lead.toList)
    (hseries : '{' ∉ s.series.toList) (p : Placeholder) : '{' ∉ s.part p := by
  cases p with
  | lead =>
    cases h : s.lead with
    | none => simp [part, h]
    | some lead => simpa [part, h] using hlead lead h
  | series => exact hseries
  | year =>
    cases h : s.year with
    | none => simp [part, h]
    | some year => simpa [part, h, ← padded_zero] using
        not_mem_padded (by decide) (by decide) 0 year
  | number => exact not_mem_padded (by decide) (by decide) s.padding s.value

/-- A pattern whose opening braces all begin words is filled as it is read, once from left to right,
where neither the lead nor the series brings an opening brace. -/
theorem text_as_read (s : Snapshot) {pattern : String} (hpattern : s.pattern = some pattern)
    (hbraced : Braced pattern.toList) (hlead : ∀ lead ∈ s.lead, '{' ∉ lead.toList)
    (hseries : '{' ∉ s.series.toList) : s.text = String.ofList (s.rendered pattern.toList) := by
  obtain ⟨pieces, hpieces⟩ := hbraced.exists_pieces
  rw [text_of_pattern hpattern, ← hpieces, fill_written (brace_not_mem_part hlead hseries)]

/-- The lead and the series bring closing braces and the letters of words. -/
def closingNumber : Snapshot :=
  { lead := some "YEAR\x7d"
    series := "\x7d\x7dNUMBER"
    year := some 2026
    value := -7
    padding := 4
    pattern := some "\x7bPREFIX\x7d\x7bSERIES\x7d\x7d\x7bYEAR\x7dYEAR\x7d/\x7bNUMBER\x7d" }

theorem text_as_read_closing :
    Braced (closingNumber.pattern.getD "").toList ∧
      closingNumber.text = "YEAR\x7d\x7d\x7dNUMBER\x7d2026YEAR\x7d/-007" := by
  have hbraced : Braced (closingNumber.pattern.getD "").toList := by decide +kernel
  have hread := text_as_read closingNumber rfl hbraced (by decide) (by decide)
  exact ⟨hbraced, hread.trans (by decide +kernel)⟩

end Snapshot

end Docket.Issuing
