import Docket.Text.Numeral

/-! # Identifiers

Identifiers of tenants, document types, business parties, counters and documents: numbers of 128
bits, written as 32 hexadecimal digits in groups of 8, 4, 4, 4 and 12.
-/

namespace Docket

def Id.bound : Nat := 0x100000000000000000000000000000000

structure Id where
  value : Nat
  value_lt : value < Id.bound
deriving DecidableEq

namespace Id

/-- The identifier that stands for no identifier. -/
def nil : Id := ⟨0, by decide⟩

def isNil (id : Id) : Bool := id.value == 0

instance : Inhabited Id := ⟨nil⟩

def ofNat? (n : Nat) : Option Id := if h : n < bound then some ⟨n, h⟩ else none

/-- Hexadecimal digits cut into the groups of the written form. -/
def grouped (ds : List Char) : List Char :=
  ds.take 8 ++ '-' :: (ds.drop 8).take 4 ++ '-' :: (ds.drop 12).take 4
    ++ '-' :: (ds.drop 16).take 4 ++ '-' :: ds.drop 20

def chars (id : Id) : List Char := grouped (Text.hexDigits 32 id.value)

def text (id : Id) : String := String.ofList id.chars

/-- The digits of a grouped text of 36 characters, if a hyphen stands between each two groups. -/
def ungrouped? (cs : List Char) : Option (List Char) :=
  match cs.drop 8, cs.drop 13, cs.drop 18, cs.drop 23 with
  | '-' :: b, '-' :: c, '-' :: d, '-' :: e =>
    some (cs.take 8 ++ b.take 4 ++ c.take 4 ++ d.take 4 ++ e)
  | _, _, _, _ => none

/-- Reader of the accepted spellings: grouped or plain digits of either case, braces around the
groups, or the word `urn:uuid:` in any case before them. -/
def ofChars? (cs : List Char) : Option Id := do
  let grouped ←
    if cs.length = 32 then some cs
    else if cs.length = 36 then ungrouped? cs
    else if cs.length = 38 ∧ cs.head? = some '{' ∧ cs.getLast? = some '}' then
      ungrouped? (cs.tail.dropLast)
    else if cs.length = 45 ∧ (cs.take 9).map Char.toLower = "urn:uuid:".toList then
      ungrouped? (cs.drop 9)
    else none
  ofNat? (← Text.hexValue? grouped)

def ofText? (s : String) : Option Id := ofChars? s.toList

theorem ofNat?_value (id : Id) : ofNat? id.value = some id := dif_pos id.value_lt

def le (a b : Id) : Bool := decide (a.value ≤ b.value)

end Id

end Docket
