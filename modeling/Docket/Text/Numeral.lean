/-! # Numerals

Decimal and hexadecimal writing of whole numbers, and the values of digit strings.
-/

namespace Docket.Text

def digits (n : Nat) : List Char := Nat.toDigits 10 n

/-- Decimal digits after a minus sign where the number is negative. -/
def numeral (z : Int) : List Char :=
  if z < 0 then '-' :: digits z.natAbs else digits z.natAbs

/-- Numeral with zeros between its sign and its digits, up to a width that counts the sign. -/
def padded (width : Nat) (z : Int) : List Char :=
  let body := digits z.natAbs
  if z < 0 then '-' :: (List.replicate (width - 1 - body.length) '0' ++ body)
  else List.replicate (width - body.length) '0' ++ body

def zeroFilled (width n : Nat) : List Char :=
  let body := digits n
  List.replicate (width - body.length) '0' ++ body

def ofNat (n : Nat) : String := String.ofList (digits n)

def ofInt (z : Int) : String := String.ofList (numeral z)

def valueOf (ds : List Char) : Nat := Nat.ofDigitChars 10 ds 0

theorem valueOf_digits (n : Nat) : valueOf (digits n) = n := Nat.ofDigitChars_ten_toDigits

theorem isDigit_of_mem_digits {c : Char} {n : Nat} (h : c ∈ digits n) : c.isDigit = true :=
  Nat.isDigit_of_mem_toDigits (by decide) (by decide) h

theorem digits_ne_nil (n : Nat) : digits n ≠ [] := Nat.toDigits_ne_nil

theorem digits_of_ge {n : Nat} (h : 10 ≤ n) :
    digits n = digits (n / 10) ++ [Nat.digitChar (n % 10)] := by
  have hdigits := Nat.toDigits_append_toDigits (b := 10) (n := n / 10) (d := n % 10) (by decide)
    (by omega) (by omega)
  rw [Nat.div_add_mod, Nat.toDigits_of_lt_base (Nat.mod_lt n (by decide))] at hdigits
  exact hdigits.symm

/-- Lower-case hexadecimal digits in a fixed width, the highest places dropped. -/
def hexDigits : Nat → Nat → List Char
  | 0, _ => []
  | width + 1, n => hexDigits width (n / 16) ++ [Nat.digitChar (n % 16)]

def hexDigit? (c : Char) : Option Nat :=
  if c.isDigit then some (c.toNat - 48)
  else if 'a' ≤ c ∧ c ≤ 'f' then some (c.toNat - 87)
  else if 'A' ≤ c ∧ c ≤ 'F' then some (c.toNat - 55)
  else none

def hexValue? (cs : List Char) : Option Nat :=
  cs.foldlM (fun acc c => (hexDigit? c).map (16 * acc + ·)) 0

theorem length_hexDigits (width n : Nat) : (hexDigits width n).length = width := by
  induction width generalizing n with
  | zero => rfl
  | succ w ih => simp [hexDigits, ih]

theorem hexDigit?_digitChar : ∀ d < 16, hexDigit? (Nat.digitChar d) = some d := by decide

theorem hexValue?_hexDigits (width n : Nat) :
    hexValue? (hexDigits width n) = some (n % Nat.pow 16 width) := by
  induction width generalizing n with
  | zero => simp [hexDigits, hexValue?, Nat.mod_one]
  | succ w ih =>
    have hd := hexDigit?_digitChar (n % 16) (Nat.mod_lt _ (by decide))
    have step : hexValue? (hexDigits (w + 1) n)
        = (hexValue? (hexDigits w (n / 16))).bind fun acc =>
            (hexDigit? (Nat.digitChar (n % 16))).map (16 * acc + ·) := by
      simp [hexValue?, hexDigits, List.foldlM_append, Bind.bind]
    rw [step, ih, hd]
    simp only [Option.bind_some, Option.map_some, Option.some.injEq]
    have hpow : Nat.pow 16 (w + 1) = 16 * Nat.pow 16 w := Nat.mul_comm _ _
    rw [hpow, Nat.mod_mul]
    omega

/-- The digits at the front of a text, at most as many as a limit, and what follows them. -/
def leadingDigits (limit : Nat) (cs : List Char) : List Char × List Char :=
  let ds := (cs.take limit).takeWhile Char.isDigit
  (ds, cs.drop ds.length)

theorem takeWhile_isDigit_append {ds rest : List Char} (hds : ∀ c ∈ ds, c.isDigit = true)
    (hrest : ∀ c ∈ rest.head?, c.isDigit = false) :
    (ds ++ rest).takeWhile Char.isDigit = ds := by
  rw [List.takeWhile_append_of_pos hds]
  cases rest with
  | nil => exact List.append_nil ds
  | cons c rest =>
    rw [List.takeWhile_cons_of_neg (by rw [hrest c rfl]; exact Bool.false_ne_true), List.append_nil]

end Docket.Text
