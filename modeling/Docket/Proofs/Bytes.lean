import Mathlib.Tactic.Linarith
import Mathlib.Data.List.Lex
import Mathlib.Tactic.SplitIfs
import Docket.Id

/-! # The order of bytes

Identifiers and texts are stored as bytes, and sorted by them: identifiers by their sixteen bytes,
the highest first, and texts by their encoding. Both orders are those of the numbers and of the
characters that the bytes stand for.
-/

namespace Docket

namespace Text

/-- The bytes of a number below 256 to the power of their count, the highest first. -/
def bigEndian : Nat → Nat → List UInt8
  | 0, _ => []
  | n + 1, v => UInt8.ofNat (v / 256 ^ n) :: bigEndian n (v % 256 ^ n)

theorem ofNat_lt_ofNat {m n : Nat} (h : m < n) (hn : n < 256) : UInt8.ofNat m < UInt8.ofNat n := by
  rw [UInt8.lt_iff_toNat_lt, UInt8.toNat_ofNat', UInt8.toNat_ofNat', Nat.mod_eq_of_lt (by omega),
    Nat.mod_eq_of_lt (by omega)]
  exact h

theorem bigEndian_lt {n v w : Nat} (hw : w < 256 ^ n) (h : v < w) :
    bigEndian n v < bigEndian n w := by
  induction n generalizing v w with
  | zero => omega
  | succ n ih =>
    have hpos : 0 < 256 ^ n := Nat.pow_pos (by decide)
    have hhead : w / 256 ^ n < 256 := Nat.div_lt_of_lt_mul hw
    rcases Nat.lt_or_eq_of_le (Nat.div_le_div_right (c := 256 ^ n) (Nat.le_of_lt h)) with
      hlt | heq
    · exact List.Lex.rel (ofNat_lt_ofNat hlt hhead)
    · have hmod : v % 256 ^ n < w % 256 ^ n := by
        have hv := Nat.div_add_mod v (256 ^ n)
        have hw' := Nat.div_add_mod w (256 ^ n)
        rw [heq] at hv
        omega
      rw [bigEndian, bigEndian, heq]
      exact List.Lex.cons (ih (Nat.mod_lt _ hpos) hmod)

/-- The bytes of an encoding after the first one hold six bits each. -/
def continuation : Nat → Nat → List UInt8
  | 0, _ => []
  | n + 1, v => UInt8.ofNat (v / 64 ^ n % 64 + 128) :: continuation n v

theorem continuation_append_lt {n v w : Nat} (hlead : v / 64 ^ n = w / 64 ^ n) (h : v < w)
    (xs ys : List UInt8) : continuation n v ++ xs < continuation n w ++ ys := by
  induction n with
  | zero =>
    rw [Nat.pow_zero, Nat.div_one, Nat.div_one] at hlead
    omega
  | succ n ih =>
    rcases Nat.lt_or_eq_of_le (Nat.div_le_div_right (c := 64 ^ n) (Nat.le_of_lt h)) with hlt | heq
    · rw [Nat.pow_succ, ← Nat.div_div_eq_div_mul, ← Nat.div_div_eq_div_mul] at hlead
      exact List.Lex.rel (ofNat_lt_ofNat (by omega) (by omega))
    · rw [continuation, continuation, heq]
      exact List.Lex.cons (ih heq)

theorem encoding_append_lt {k m b v w : Nat} (h : v < w) (hw : w / 64 ^ k < m) (hb : m + b ≤ 256)
    (xs ys : List UInt8) :
    UInt8.ofNat (v / 64 ^ k % m + b) :: (continuation k v ++ xs)
      < UInt8.ofNat (w / 64 ^ k % m + b) :: (continuation k w ++ ys) := by
  have hle := Nat.div_le_div_right (c := 64 ^ k) (Nat.le_of_lt h)
  rw [Nat.mod_eq_of_lt hw, Nat.mod_eq_of_lt (Nat.lt_of_le_of_lt hle hw)]
  rcases Nat.lt_or_eq_of_le hle with hlt | heq
  · exact List.Lex.rel (ofNat_lt_ofNat (by omega) (by omega))
  · rw [heq]
    exact List.Lex.cons (continuation_append_lt heq h xs ys)

/-- The encodings of two characters differ in a byte, and the first such byte tells their order. -/
theorem utf8EncodeChar_append_lt {c d : Char} (h : c < d) (xs ys : List UInt8) :
    String.utf8EncodeChar c ++ xs < String.utf8EncodeChar d ++ ys := by
  have hlt : c.toNat < d.toNat := h
  have hd : d.toNat < 0x110000 := by
    rcases d.valid with hvalid | ⟨-, hvalid⟩
    · exact Nat.lt_trans hvalid (by decide)
    · exact hvalid
  have h₂ := fun hw => encoding_append_lt (k := 1) (m := 32) (b := 192) hlt hw (by decide) xs ys
  have h₃ := fun hw => encoding_append_lt (k := 2) (m := 16) (b := 224) hlt hw (by decide) xs ys
  have h₄ := encoding_append_lt (k := 3) (m := 8) (b := 240) hlt (by omega) (by decide) xs ys
  simp only [continuation, Nat.reducePow, Nat.div_one, List.cons_append, List.nil_append]
    at h₂ h₃ h₄
  simp only [String.utf8EncodeChar, ← Char.toNat_val] at *
  -- Encodings of different lengths differ in the first byte.
  split_ifs
  all_goals first
    | exact List.Lex.rel (ofNat_lt_ofNat (by omega) (by omega))
    | omega
    | exact h₂ (by omega)
    | exact h₃ (by omega)
    | exact h₄

def bytes (s : String) : List UInt8 := s.toUTF8.data.toList

theorem bytes_eq (s : String) : bytes s = s.toList.flatMap String.utf8EncodeChar := by
  conv => lhs; rw [← String.ofList_toList (s := s)]
  rw [bytes, String.toUTF8_eq_toByteArray, String.toByteArray_ofList, List.utf8Encode,
    List.data_toByteArray]

theorem flatMap_utf8EncodeChar_lt {cs ds : List Char} (h : cs < ds) :
    cs.flatMap String.utf8EncodeChar < ds.flatMap String.utf8EncodeChar := by
  induction h with
  | @nil d ds =>
    obtain ⟨b, bs, hd⟩ := List.exists_cons_of_ne_nil (String.utf8EncodeChar_ne_nil (c := d))
    rw [List.flatMap_cons, hd]
    exact List.Lex.nil
  | rel h =>
    rw [List.flatMap_cons, List.flatMap_cons]
    exact utf8EncodeChar_append_lt h _ _
  | cons _ ih =>
    rw [List.flatMap_cons, List.flatMap_cons]
    exact List.Lex.append_left _ ih _

theorem bytes_lt {s t : String} (h : s < t) : bytes s < bytes t := by
  rw [bytes_eq, bytes_eq]
  exact flatMap_utf8EncodeChar_lt h

end Text

namespace Id

def bytes (id : Id) : List UInt8 := Text.bigEndian 16 id.value

theorem bytes_lt {a b : Id} (h : a.value < b.value) : a.bytes < b.bytes :=
  Text.bigEndian_lt b.value_lt h

end Id

end Docket
