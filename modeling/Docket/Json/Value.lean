/-! # JSON values

Values of the data format in which events are written. Whole numbers are exact integers; any other
number is kept as the text it was written with. Fields stay in the order of writing.
-/

namespace Docket

inductive Json where
  | null
  | bool (b : Bool)
  | int (n : Int)
  | real (lexeme : String)
  | str (s : String)
  | arr (items : List Json)
  | obj (fields : List (String × Json))

namespace Json

instance : Inhabited Json := ⟨null⟩

/-- Value of the last field of a given name. -/
def field? (name : String) : Json → Option Json
  | obj fields => (fields.reverse.find? fun f => f.1 == name).map Prod.snd
  | _ => none

def present? (name : String) (v : Json) : Option Json :=
  match v.field? name with
  | some null => none
  | found => found

def text? : Json → Option String
  | str s => some s
  | _ => none

def int? : Json → Option Int
  | int n => some n
  | _ => none

def bool? : Json → Option Bool
  | bool b => some b
  | _ => none

def array? : Json → Option (List Json)
  | arr items => some items
  | _ => none

def ofOption {α : Type} (f : α → Json) : Option α → Json
  | none => null
  | some a => f a

mutual

/-- Value with all its texts changed, names of fields apart. -/
def mapText (f : String → String) : Json → Json
  | str s => str (f s)
  | arr items => arr (mapTextItems f items)
  | obj fields => obj (mapTextFields f fields)
  | v => v

def mapTextItems (f : String → String) : List Json → List Json
  | [] => []
  | v :: vs => mapText f v :: mapTextItems f vs

def mapTextFields (f : String → String) : List (String × Json) → List (String × Json)
  | [] => []
  | (name, v) :: rest => (name, mapText f v) :: mapTextFields f rest

end

end Json

end Docket
