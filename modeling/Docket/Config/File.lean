import Docket.Config.Variable
import Docket.Yaml.Tree

/-! # Settings from a file

Settings of a file go over the defaults, and settings of the environment over both. A file is a YAML
document with a mapping of settings. Keys are scalars of any kind; a value is what its tag says, or
what it looks like if it is a plain scalar. Lists and mappings have no meaning as settings, but what
they hold is read as well.
-/

namespace Docket.Config.File

open Docket.Yaml

/-! ## Plain scalars -/

/-- A whole number with an optional sign, in decimal digits or after a mark of its base, of at most
128 bits with its sign. -/
def wholeNumber? (cs : List Char) : Option Int := do
  let (isNegative, body) := unsigned cs
  let n ← match body with
    | '0' :: 'x' :: ds => valueIn? 16 ds
    | '0' :: 'o' :: ds => valueIn? 8 ds
    | '0' :: 'b' :: ds => valueIn? 2 ds
    | ds => if ds.length ≠ 1 ∧ ds.head? = some '0' then none else valueIn? 10 ds
  if isNegative then
    if n ≤ 0x80000000000000000000000000000000 then some (-(n : Int)) else none
  else if n < 0x100000000000000000000000000000000 then some n
  else none

/-- Digits of which the first is a zero that the number does not need. -/
def isZeroLed (cs : List Char) : Bool :=
  let body := (unsigned cs).2
  body.length != 1 && body.head? == some '0' && body.all Char.isDigit

def isNotFinite (cs : List Char) : Bool :=
  [".inf", ".Inf", ".INF"].contains (String.ofList (unsigned cs).2)
    || [".nan", ".NaN", ".NAN"].contains (String.ofList cs)

/-- A number that is in the range of binary numbers with 53 significant bits. -/
def isReal (cs : List Char) : Bool := isNotFinite cs || (isNumber cs && isInRange cs)

def isNull (cs : List Char) : Bool := ["~", "null", "Null", "NULL"].contains (String.ofList cs)

def truth? (cs : List Char) : Option Bool :=
  let s := String.ofList cs
  if ["true", "True", "TRUE"].contains s then some true
  else if ["false", "False", "FALSE"].contains s then some false
  else none

def ofPlain (cs : List Char) : Setting :=
  if cs = [] ∨ isNull cs then .null
  else
    match truth? cs, wholeNumber? cs with
    | some b, _ => .bool b
    | none, some n => .int n
    | none, none => if !isZeroLed cs && isReal cs then .real else .text (String.ofList cs)

/-! ## Nodes -/

def tagStart : List Char := "tag:yaml.org,2002:".toList

/-- Whether a tag is one that a text makes up for itself; such tags mean nothing here. -/
def isOwnTag (tag : List Char) : Bool :=
  tag.head? == some '!'
    && (String.fromUTF8? ⟨(tag.map fun c => c.toNat.toUInt8).toArray⟩).isSome

def ofTagged? (tag : List Char) (style : Style) (cs : List Char) : Option Setting :=
  let kind := if tagStart.isPrefixOf tag then tag.drop tagStart.length else []
  if isOwnTag tag then none
  else if kind = "bool".toList then (truth? cs).map .bool
  else if kind = "int".toList then (wholeNumber? cs).map .int
  else if kind = "float".toList then if isReal cs then some .real else none
  else if kind = "null".toList then if isNull cs then some .null else none
  else if tag.head? = some '!' ∧ style = .plain then some (ofPlain cs)
  else some (.text (String.ofList cs))

def ofScalar? (p : Properties) (style : Style) (cs : List Char) : Option Setting :=
  match p.tag with
  | some tag => ofTagged? tag style cs
  | none => some (if style = .plain then ofPlain cs else .text (String.ofList cs))

def key (t : Tree) (n : Node Nat) : Tree.Reading String := do
  match ← t.follow n with
  | .scalar _ _ text => pure (String.ofList text)
  | _ => failure

/-- The setting that a node is, with collections inside each other up to a depth. -/
def value (t : Tree) : Nat → Node Nat → Tree.Reading Setting
  | 0, n => do
    match ← t.follow n with
    | .scalar p style text => liftM (ofScalar? p style text)
    | _ => failure
  | depth + 1, n => do
    match ← t.follow n with
    | .alias _ => failure
    | .scalar p style text => liftM (ofScalar? p style text)
    | .sequence p items => do
      if p.tag.any isOwnTag then failure
      items.forM fun item => do let _ ← value t depth item
      pure .compound
    | .mapping p entries => do
      if p.tag.any isOwnTag then failure
      entries.forM fun (k, v) => do
        let _ ← key t k
        let _ ← value t depth v
      pure .compound

def depthLimit : Nat := 127

/-- The settings of a tree; an empty scalar has none. -/
def ofTree? (t : Tree) : Option Settings :=
  match t.root with
  | .scalar _ _ [] => some []
  | .mapping _ entries =>
    (entries.mapM fun (k, v) => do
      return (← key t k, ← value t depthLimit v) : Tree.Reading Settings).run' 0
  | _ => none

/-- The settings of a file; a file without a document has none. -/
def settings? (text : String) : Option Settings := do
  match ← Tree.ofText? text with
  | none => some []
  | some t => ofTree? t

end Docket.Config.File

/-! ## Loading -/

namespace Docket.Config

inductive LoadFailure where
  /-- Settings that cannot be read, have unknown names or the wrong types. -/
  | unreadable
  | invalid (m : Misconfiguration)
deriving DecidableEq

/-- Configuration of a file, which may be missing, and of the variables of an environment. -/
def load (file : Option String) (environment : List (String × String)) :
    Except LoadFailure Config :=
  let fileSettings := match file with
    | none => some []
    | some text => File.settings? text
  match fileSettings with
  | none => .error .unreadable
  | some settings =>
    match ofSettings? (settings ++ ofEnvironment environment) with
    | none => .error .unreadable
    | some config =>
      match config.validate with
      | .ok () => .ok config
      | .error m => .error (.invalid m)

end Docket.Config
