import Mathlib.Data.List.Basic
import Docket.Json.Reader
import Docket.Json.Writer

/-! # Reading written JSON

From the front of a text the reader takes the value that was written there, whatever is in its
texts, if a separator or a bracket follows or the text is at its end. Only a number that is no
integer is taken as it stands, so it is left out here.
-/

namespace Docket

namespace Text

theorem digitChar_ne_zero : ∀ n < 10, n ≠ 0 → Nat.digitChar n ≠ '0' := by decide

theorem exists_digits_eq_cons {n : Nat} (hn : 0 < n) :
    ∃ c cs, digits n = c :: cs ∧ c ≠ '0' := by
  induction n using Nat.strongRecOn with
  | ind n ih =>
    rcases Nat.lt_or_ge n 10 with hlt | hge
    · exact ⟨_, [], Nat.toDigits_of_lt_base hlt, digitChar_ne_zero n hlt (Nat.ne_of_gt hn)⟩
    · obtain ⟨c, cs, hdigits, hc⟩ := ih (n / 10) (by omega) (by omega)
      exact ⟨c, cs ++ [Nat.digitChar (n % 10)], by rw [digits_of_ge hge, hdigits]; rfl, hc⟩

theorem digits_ne_zero {n : Nat} (hn : 0 < n) : digits n ≠ ['0'] := by
  obtain ⟨c, cs, hdigits, hc⟩ := exists_digits_eq_cons hn
  rw [hdigits]
  exact fun h => hc (List.cons.inj h).1

end Text

namespace Json

open Docket.Text

variable {c : Char} {cs rest : List Char} {fuel : Nat} {v : Json}

/-! ### Texts -/

section Strings

/-- A text that goes on with a number after a backslash only where the number can be read. -/
def Continues (cs : List Char) : Prop :=
  ∀ a b c d rest, cs = '\\' :: 'u' :: a :: b :: c :: d :: rest →
    ∃ n, hexValue? [a, b, c, d] = some n

theorem escaped_cases (c : Char) :
    (∃ x, x ≠ 'u' ∧ escaped c = ['\\', x] ∧ unescaped? x = some c) ∨
      (∃ w x y z, escaped c = ['\\', 'u', w, x, y, z] ∧ c.toNat < 32 ∧
        hexValue? [w, x, y, z] = some c.toNat) ∨
      c ≠ '"' ∧ c ≠ '\\' ∧ ¬ c.toNat < 32 ∧ escaped c = [c] := by
  unfold escaped
  split_ifs with h₁ h₂ h₃ h₄ h₅ h₆ h₇ h₈
  · exact Or.inl ⟨'"', by decide, rfl, by rw [h₁]; rfl⟩
  · exact Or.inl ⟨'\\', by decide, rfl, by rw [h₂]; rfl⟩
  · exact Or.inl ⟨'b', by decide, rfl, h₃ ▸ rfl⟩
  · exact Or.inl ⟨'f', by decide, rfl, h₄ ▸ rfl⟩
  · exact Or.inl ⟨'n', by decide, rfl, h₅ ▸ rfl⟩
  · exact Or.inl ⟨'r', by decide, rfl, h₆ ▸ rfl⟩
  · exact Or.inl ⟨'t', by decide, rfl, h₇ ▸ rfl⟩
  · have hvalue := hexValue?_hexDigits 4 c.toNat
    rw [Nat.mod_eq_of_lt (Nat.lt_trans h₈ (by decide))] at hvalue
    exact Or.inr (Or.inl ⟨_, _, _, _, rfl, h₈, hvalue⟩)
  · exact Or.inr (Or.inr ⟨h₁, h₂, h₈, rfl⟩)

theorem continues_escaped (c : Char) (rest : List Char) : Continues (escaped c ++ rest) := by
  intro a b d e tail h
  rcases escaped_cases c with ⟨x, hx, hc, -⟩ | ⟨w, x, y, z, hc, -, hvalue⟩ | ⟨-, hb, -, hc⟩
  · rw [hc] at h
    exact absurd (List.cons.inj (List.cons.inj h).2).1 hx
  · rw [hc] at h
    obtain ⟨rfl, rfl, rfl, rfl, -⟩ : w = a ∧ x = b ∧ y = d ∧ z = e ∧ rest = tail := by
      simpa using h
    exact ⟨_, hvalue⟩
  · rw [hc] at h
    exact absurd (List.cons.inj h).1 hb

theorem stringBody?_number {a b d e : Char} {n : Nat} (hvalue : hexValue? [a, b, d, e] = some n)
    (hn : n < 32) (hrest : Continues rest) :
    stringBody? ('\\' :: 'u' :: a :: b :: d :: e :: rest)
      = (stringBody? rest).map fun (s, r) => (Char.ofNat n :: s, r) := by
  have hsingle : single? n = some (Char.ofNat n) := if_neg (by omega)
  by_cases hnext : ∃ f g h i tail, rest = '\\' :: 'u' :: f :: g :: h :: i :: tail
  · obtain ⟨f, g, h, i, tail, rfl⟩ := hnext
    obtain ⟨m, hm⟩ := hrest f g h i tail rfl
    have hpaired : paired? n m = none := if_neg (by omega)
    rw [stringBody?.eq_3, hvalue, hm]
    simp only [hpaired, hsingle]
    cases stringBody? ('\\' :: 'u' :: f :: g :: h :: i :: tail) <;> rfl
  · rw [stringBody?.eq_4 _ _ _ _ _ fun f g h i tail heq => hnext ⟨f, g, h, i, tail, heq⟩, hvalue]
    simp only [Option.bind_eq_bind, Option.bind_some, hsingle]
    cases stringBody? rest <;> rfl

theorem stringBody?_escaped (c : Char) (hrest : Continues rest) :
    stringBody? (escaped c ++ rest) = (stringBody? rest).map fun (s, r) => (c :: s, r) := by
  rcases escaped_cases c with ⟨x, hx, hc, hmeant⟩ | ⟨w, x, y, z, hc, hlt, hvalue⟩ |
    ⟨hquote, hback, hlarge, hc⟩
  · rw [hc, List.cons_append, List.cons_append, List.nil_append, stringBody?.eq_5, hmeant]
    · cases stringBody? rest <;> rfl
    · exact fun _ _ _ _ _ _ _ _ _ h => absurd h hx
    · exact fun _ _ _ _ _ h => absurd h hx
  · rw [hc]
    exact (stringBody?_number hvalue hlt hrest).trans (by rw [Char.ofNat_toNat])
  · rw [hc, List.cons_append, List.nil_append, stringBody?.eq_6 c rest hquote
      (fun _ _ _ _ _ _ _ _ _ h => absurd h hback) (fun _ _ _ _ _ h => absurd h hback)
      (fun _ _ h => absurd h hback), if_neg (not_or.mpr ⟨hback, hlarge⟩)]

theorem stringBody?_quoted (s rest : List Char) :
    stringBody? (s.flatMap escaped ++ '"' :: rest) = some (s, rest) := by
  induction s with
  | nil => exact stringBody?.eq_2 rest
  | cons c s ih =>
    have hnext : Continues (s.flatMap escaped ++ '"' :: rest) := by
      cases s with
      | nil => exact fun _ _ _ _ _ h => absurd (List.cons.inj h).1 (by decide)
      | cons d s =>
        rw [List.flatMap_cons, List.append_assoc]
        exact continues_escaped d _
    rw [List.flatMap_cons, List.append_assoc, stringBody?_escaped c hnext, ih]
    rfl

end Strings

/-! ### Numbers -/

section Numbers

/-- What may follow a value: nothing, a comma or a closing bracket. -/
def Follows (rest : List Char) : Prop := ∀ c ∈ rest.head?, c = ',' ∨ c = ']' ∨ c = '}'

theorem follows_cons (h : c = ',' ∨ c = ']' ∨ c = '}') : Follows (c :: rest) := fun _ hd =>
  Option.some.inj hd ▸ h

theorem Follows.isDigit (h : Follows rest) : ∀ c ∈ rest.head?, c.isDigit = false := by
  intro c hc
  rcases h c hc with rfl | rfl | rfl <;> rfl

theorem wellStarted_digits (n : Nat) : wellStarted (digits n) = true := by
  rcases Nat.eq_zero_or_pos n with rfl | hn
  · rfl
  · obtain ⟨c, cs, hdigits, hc⟩ := exists_digits_eq_cons hn
    rw [hdigits]
    cases cs with
    | nil => rfl
    | cons d cs => exact bne_iff_ne.mpr hc

/-- No point and no exponent comes where a value is at its end. -/
theorem Follows.parts (h : Follows rest) :
    fractionPart? rest = some ([], rest) ∧ exponentPart? rest = some ([], rest) := by
  cases rest with
  | nil => exact ⟨rfl, rfl⟩
  | cons c rest => rcases h c rfl with rfl | rfl | rfl <;> exact ⟨rfl, rfl⟩

theorem number?_of_parts {sign ds : List Char} (hsign : (cs.take 1).filter (· == '-') = sign)
    (hdigits : (cs.drop sign.length).takeWhile Char.isDigit = ds)
    (hrest : cs.drop (sign.length + ds.length) = rest) (hfollows : Follows rest)
    (hstart : wellStarted ds = true) (hzero : ¬ (sign ≠ [] ∧ ds = ['0'])) :
    number? cs = some (int (if sign = [] then valueOf ds else -valueOf ds), rest) := by
  obtain ⟨hfraction, hexponent⟩ := hfollows.parts
  simp only [number?, hsign, hdigits, hrest, hstart, hfraction, hexponent, hzero, ↓reduceIte,
    Option.bind_eq_bind, Option.bind_some, not_false_eq_true, and_self]

theorem number?_digits (n : Nat) (hrest : Follows rest) :
    number? (digits n ++ rest) = some (int n, rest) := by
  obtain ⟨c, cs, hdigits⟩ := List.exists_cons_of_ne_nil (digits_ne_nil n)
  have hc : c.isDigit = true := isDigit_of_mem_digits (n := n) (hdigits ▸ List.mem_cons_self)
  have hsign : ((digits n ++ rest).take 1).filter (· == '-') = [] := by
    have hne : (c == '-') = false := by
      rw [beq_eq_false_iff_ne]
      rintro rfl
      cases hc
    simp [hdigits, hne]
  have htake := takeWhile_isDigit_append (fun c hc => isDigit_of_mem_digits (n := n) hc)
    hrest.isDigit
  have hdrop : (digits n ++ rest).drop (0 + (digits n).length) = rest := by
    rw [Nat.zero_add, List.drop_left]
  have hnumber := number?_of_parts hsign htake hdrop hrest (wellStarted_digits n) fun h => h.1 rfl
  rwa [if_pos rfl, valueOf_digits] at hnumber

theorem number?_minus {n : Nat} (hn : 0 < n) (hrest : Follows rest) :
    number? ('-' :: (digits n ++ rest)) = some (int (-n), rest) := by
  have htake := takeWhile_isDigit_append (fun c hc => isDigit_of_mem_digits (n := n) hc)
    hrest.isDigit
  have hdrop : ('-' :: (digits n ++ rest)).drop (1 + (digits n).length) = rest := by
    rw [Nat.add_comm, List.drop_succ_cons, List.drop_left]
  have hsign : (('-' :: (digits n ++ rest)).take 1).filter (· == '-') = ['-'] := rfl
  have hnumber := number?_of_parts hsign htake hdrop hrest (wellStarted_digits n)
    fun h => digits_ne_zero hn h.2
  rwa [if_neg (List.cons_ne_nil _ _), valueOf_digits] at hnumber

theorem number?_numeral (n : Int) (hrest : Follows rest) :
    number? (numeral n ++ rest) = some (int n, rest) := by
  unfold numeral
  split
  · next hneg =>
    rw [List.cons_append, number?_minus (by omega) hrest]
    congr
    omega
  · next hpos =>
    rw [number?_digits n.natAbs hrest]
    congr
    omega

end Numbers

/-! ### Values -/

section Values

/-- A value that is written so that it can be read back, whatever follows it. -/
def ReadsBack (v : Json) : Prop :=
  ∀ fuel rest, v.chars.length ≤ fuel → Follows rest →
    value? (fuel + 1) (v.chars ++ rest) = some (v, rest)

/-- Values in which all numbers are integers. -/
inductive Whole : Json → Prop
  | null : Whole null
  | bool (b : Bool) : Whole (bool b)
  | int (n : Int) : Whole (int n)
  | str (s : String) : Whole (str s)
  | arr {items : List Json} (wholes : ∀ v ∈ items, Whole v) : Whole (arr items)
  | obj {fields : List (String × Json)} (wholes : ∀ f ∈ fields, Whole f.2) : Whole (obj fields)

theorem skipSpace_cons (h : isSpace c = false) : skipSpace (c :: cs) = c :: cs :=
  List.dropWhile_cons_of_neg (by rw [h]; exact Bool.false_ne_true)

def StartsNumber (c : Char) : Prop := c = '-' ∨ c.isDigit = true

theorem StartsNumber.isSpace (h : StartsNumber c) : isSpace c = false := by
  rcases h with rfl | hdigit
  · rfl
  · simp only [Json.isSpace, Bool.or_eq_false_iff, beq_eq_false_iff_ne]
    refine ⟨⟨⟨?_, ?_⟩, ?_⟩, ?_⟩ <;> (rintro rfl; cases hdigit)

theorem not_startsNumber (hc : c ≠ '-') (hdigit : c.isDigit = false) : ¬ StartsNumber c := by
  rintro (h | h)
  · exact hc h
  · exact Bool.false_ne_true (hdigit.symm.trans h)

theorem value?_of_startsNumber (h : StartsNumber c) :
    value? (fuel + 1) (c :: cs) = number? (c :: cs) := by
  have hother : ∀ d rest, ¬ StartsNumber d → c :: cs ≠ d :: rest := fun d rest hd heq =>
    hd ((List.cons.inj heq).1 ▸ h)
  rw [value?, skipSpace_cons h.isSpace]
  split
  · next heq => exact absurd heq (hother _ _ (not_startsNumber (by decide) rfl))
  · next heq => exact absurd heq (hother _ _ (not_startsNumber (by decide) rfl))
  · next heq => exact absurd heq (hother _ _ (not_startsNumber (by decide) rfl))
  · next heq => exact absurd heq (hother _ _ (not_startsNumber (by decide) rfl))
  · next heq => exact absurd heq (hother _ _ (not_startsNumber (by decide) rfl))
  · next heq => exact absurd heq (hother _ _ (not_startsNumber (by decide) rfl))
  · rfl

theorem exists_numeral_eq_cons (n : Int) : ∃ c cs, numeral n = c :: cs ∧ StartsNumber c := by
  unfold numeral
  split
  · exact ⟨_, _, rfl, Or.inl rfl⟩
  · obtain ⟨c, cs, hdigits⟩ := List.exists_cons_of_ne_nil (digits_ne_nil n.natAbs)
    refine ⟨c, cs, hdigits, Or.inr (isDigit_of_mem_digits (n := n.natAbs) ?_)⟩
    exact hdigits ▸ List.mem_cons_self

theorem value?_string (fuel : Nat) (cs : List Char) :
    value? (fuel + 1) ('"' :: cs)
      = (stringBody? cs).map fun (s, r) => (str (String.ofList s), r) := by
  rw [value?]
  rfl

theorem value?_quoted (s : String) (rest : List Char) :
    value? (fuel + 1) (quoted s ++ rest) = some (str s, rest) := by
  rw [quoted, List.cons_append, value?_string, List.append_assoc, List.singleton_append,
    stringBody?_quoted]
  exact congrArg (fun s => some (str s, rest)) String.ofList_toList

/-- A whole value begins with a character that is no blank and closes no bracket. -/
theorem Whole.exists_chars_eq_cons (h : Whole v) :
    ∃ c cs, v.chars = c :: cs ∧ isSpace c = false ∧ c ≠ ']' := by
  cases h with
  | null => exact ⟨'n', _, rfl, rfl, by decide⟩
  | bool b => cases b <;> exact ⟨_, _, rfl, rfl, by decide⟩
  | int n =>
    obtain ⟨c, cs, hchars, hstarts⟩ := exists_numeral_eq_cons n
    refine ⟨c, cs, by rw [chars, hchars], hstarts.isSpace, ?_⟩
    rintro rfl
    exact not_startsNumber (by decide) rfl hstarts
  | str s => exact ⟨'"', _, by rw [chars, quoted], rfl, by decide⟩
  | arr => exact ⟨'[', _, by rw [chars], rfl, by decide⟩
  | obj => exact ⟨'{', _, by rw [chars], rfl, by decide⟩

variable {items : List Json} {fields : List (String × Json)}

theorem items?_itemChars (rest : List Char) (hne : items ≠ []) (hitems : ∀ v ∈ items, v.ReadsBack)
    (hfuel : (itemChars items).length ≤ fuel) :
    items? (fuel + 2) (itemChars items ++ ']' :: rest) = some (items, rest) := by
  induction items generalizing fuel with
  | nil => exact absurd rfl hne
  | cons v items ih =>
    have hv := hitems v List.mem_cons_self
    cases items with
    | nil =>
      rw [itemChars] at hfuel
      rw [itemChars, items?, hv fuel _ hfuel (follows_cons (Or.inr (Or.inl rfl)))]
      rfl
    | cons w items =>
      rw [itemChars, List.length_append, List.length_cons] at hfuel
      obtain ⟨fuel, rfl⟩ : ∃ k, fuel = k + 1 := ⟨fuel - 1, by omega⟩
      have hrest := ih (List.cons_ne_nil _ _) (fun u hu => hitems u (List.mem_cons_of_mem v hu))
        (by omega : _ ≤ fuel)
      rw [itemChars, List.append_assoc, List.cons_append, items?,
        hv (fuel + 1) _ (by omega) (follows_cons (Or.inl rfl))]
      exact congrArg (Option.map _) hrest

theorem fields?_cons {name : String} (hv : value? fuel cs = some (v, rest)) :
    fields? (fuel + 1) (quoted name ++ ':' :: cs) =
      match skipSpace rest with
      | ',' :: rest => (fields? fuel rest).map fun (fs, r) => ((name, v) :: fs, r)
      | '}' :: rest => some ([(name, v)], rest)
      | _ => none := by
  have hname := stringBody?_quoted name.toList (':' :: cs)
  rw [quoted, List.cons_append, List.append_assoc, List.singleton_append, fields?]
  change Option.bind (stringBody? _) _ = _
  rw [hname]
  change Option.bind (value? fuel cs) _ = _
  rw [hv, String.ofList_toList]
  rfl

theorem fields?_fieldChars (rest : List Char) (hne : fields ≠ [])
    (hfields : ∀ f ∈ fields, f.2.ReadsBack) (hfuel : (fieldChars fields).length ≤ fuel) :
    fields? (fuel + 2) (fieldChars fields ++ '}' :: rest) = some (fields, rest) := by
  induction fields generalizing fuel with
  | nil => exact absurd rfl hne
  | cons f fields ih =>
    obtain ⟨name, v⟩ := f
    have hv : v.ReadsBack := hfields (name, v) List.mem_cons_self
    cases fields with
    | nil =>
      rw [fieldChars, List.length_append, List.length_cons] at hfuel
      have hvalue := hv fuel ('}' :: rest) (by omega) (follows_cons (Or.inr (Or.inr rfl)))
      rw [fieldChars, List.append_assoc, List.cons_append, fields?_cons hvalue]
      rfl
    | cons g fields =>
      rw [fieldChars, List.length_append, List.length_cons, List.length_append,
        List.length_cons] at hfuel
      obtain ⟨fuel, rfl⟩ : ∃ k, fuel = k + 1 := ⟨fuel - 1, by omega⟩
      have hvalue := hv (fuel + 1) (',' :: (fieldChars (g :: fields) ++ '}' :: rest)) (by omega)
        (follows_cons (Or.inl rfl))
      have hrest := ih (List.cons_ne_nil _ _) (fun u hu => hfields u (List.mem_cons_of_mem _ hu))
        (by omega : _ ≤ fuel)
      rw [fieldChars, List.append_assoc, List.cons_append, List.append_assoc, List.cons_append,
        fields?_cons hvalue]
      exact congrArg (Option.map _) hrest

theorem value?_items (hspace : isSpace c = false) (hc : c ≠ ']') :
    value? (fuel + 1) ('[' :: c :: cs)
      = (items? fuel (c :: cs)).map fun (vs, r) => (arr vs, r) := by
  rw [value?, skipSpace_cons rfl]
  simp only [skipSpace_cons hspace]
  split
  · next heq => exact absurd (List.cons.inj heq).1 hc
  · rfl

theorem readsBack_arr (hwhole : ∀ v ∈ items, Whole v) (hitems : ∀ v ∈ items, v.ReadsBack) :
    (arr items).ReadsBack := by
  intro fuel rest hfuel hrest
  rw [chars, List.length_cons, List.length_append, List.length_singleton] at hfuel
  rw [chars, List.cons_append, List.append_assoc, List.singleton_append]
  cases items with
  | nil => rw [itemChars, value?]; rfl
  | cons v items =>
    obtain ⟨fuel, rfl⟩ : ∃ k, fuel = k + 2 := ⟨fuel - 2, by omega⟩
    have hread := items?_itemChars rest (List.cons_ne_nil v items) hitems
      (by omega : _ ≤ fuel)
    obtain ⟨c, cs, hchars, hspace, hc⟩ := (hwhole v List.mem_cons_self).exists_chars_eq_cons
    obtain ⟨ds, hds⟩ : ∃ ds, itemChars (v :: items) = c :: ds := by
      cases items with
      | nil => exact ⟨cs, by rw [itemChars, hchars]⟩
      | cons w items => exact ⟨_, by rw [itemChars, hchars]; rfl⟩
    rw [hds] at hread ⊢
    exact (value?_items hspace hc).trans (congrArg (Option.map _) hread)

theorem readsBack_obj (hfields : ∀ f ∈ fields, f.2.ReadsBack) : (obj fields).ReadsBack := by
  intro fuel rest hfuel hrest
  rw [chars, List.length_cons, List.length_append, List.length_singleton] at hfuel
  rw [chars, List.cons_append, List.append_assoc, List.singleton_append]
  cases fields with
  | nil => rw [fieldChars, value?]; rfl
  | cons f fields =>
    obtain ⟨fuel, rfl⟩ : ∃ k, fuel = k + 2 := ⟨fuel - 2, by omega⟩
    have hread := fields?_fieldChars rest (List.cons_ne_nil f fields) hfields
      (by omega : _ ≤ fuel)
    obtain ⟨ds, hds⟩ : ∃ ds, fieldChars (f :: fields) = '"' :: ds := by
      cases fields with
      | nil => exact ⟨_, by rw [fieldChars, quoted]; rfl⟩
      | cons g fields => exact ⟨_, by rw [fieldChars, quoted]; rfl⟩
    rw [hds] at hread ⊢
    rw [value?]
    exact congrArg (Option.map _) hread

/-- A value without other numbers than integers is read back from what is written. -/
theorem Whole.readsBack (h : Whole v) : v.ReadsBack := by
  induction h with
  | null =>
    intro fuel rest _ _
    rw [chars, value?]
    rfl
  | bool b =>
    intro fuel rest _ _
    cases b <;> rw [chars, value?] <;> rfl
  | int n =>
    intro fuel rest _ hrest
    obtain ⟨c, cs, hchars, hstarts⟩ := exists_numeral_eq_cons n
    rw [chars, hchars, List.cons_append, value?_of_startsNumber hstarts, ← List.cons_append,
      ← hchars, number?_numeral n hrest]
  | str s =>
    intro fuel rest _ _
    rw [chars]
    exact value?_quoted s rest
  | arr wholes ih => exact readsBack_arr wholes ih
  | obj _ ih => exact readsBack_obj ih

theorem Whole.ofText?_text (h : Whole v) : ofText? v.text = some v := by
  have hread := h.readsBack v.chars.length [] (Nat.le_refl _) fun _ hc => by cases hc
  rw [List.append_nil] at hread
  rw [ofText?, text, String.toList_ofList, ofChars?, hread]
  rfl

end Values

end Json

end Docket
