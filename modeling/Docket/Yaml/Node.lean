import Docket.Yaml.Token

/-! # Nodes of YAML texts

A text holds at most one document, which is a tree of nodes; its aliases stand for nodes with
anchors. Nodes that are left out are empty plain scalars. Block collections are told by tokens for
their start and end, except for sequences that stand no deeper than the mapping around them.
-/

namespace Docket.Yaml

/-- What may stand before a node. -/
structure Properties where
  anchor : Option (List Char) := none
  tag : Option (List Char) := none
deriving DecidableEq

/-- Nodes whose aliases are told apart by names or otherwise. -/
inductive Node (Name : Type) where
  | alias (name : Name)
  | scalar (p : Properties) (style : Style) (text : List Char)
  | sequence (p : Properties) (items : List (Node Name))
  | mapping (p : Properties) (entries : List (Node Name × Node Name))

abbrev WrittenNode := Node (List Char)

namespace WrittenNode

def empty : WrittenNode := .scalar {} .plain []

abbrev Handles := List (List Char × List Char)

/-- Handles that need no directive. -/
def ownHandles : Handles :=
  [("!".toList, "!".toList), ("!!".toList, "tag:yaml.org,2002:".toList)]

/-- The full form of a tag. -/
def resolve? (handles : Handles) (t : TagToken) : Option (List Char) :=
  if t.handle = [] then some t.suffix
  else (handles.lookup t.handle).map (· ++ t.suffix)

/-- The anchor and the tag before a node, in either order. -/
def properties? (handles : Handles) : List Token → Option (Properties × List Token)
  | .anchor name :: .tag t :: rest => do
    some (⟨some name, some (← resolve? handles t)⟩, rest)
  | .tag t :: .anchor name :: rest => do
    some (⟨some name, some (← resolve? handles t)⟩, rest)
  | .anchor name :: rest => some (⟨some name, none⟩, rest)
  | .tag t :: rest => do some (⟨none, some (← resolve? handles t)⟩, rest)
  | rest => some ({}, rest)

def isBefore (ends : List Token) (ts : List Token) : Bool := ts.head?.any ends.contains

/-- The tag `!` says no more of a scalar than none. -/
def scalarTag (p : Properties) : Properties :=
  if p.tag = some ['!'] then { p with tag := none } else p

mutual

/-- A node at the front of tokens, and what follows it. Outside brackets it may be a block
collection, and as part of a mapping also a sequence without a start of its own. -/
def node? (handles : Handles) :
    Nat → Bool → Bool → List Token → Option (WrittenNode × List Token)
  | 0, _, _, _ => none
  | _, _, _, .alias name :: rest => some (.alias name, rest)
  | fuel + 1, inBlock, inMapping, ts => do
    let (p, ts) ← properties? handles ts
    let block (t : Token) : Bool := inBlock && ts.head? == some t
    if inMapping && isBefore [.blockEntry] ts then
      (looseItems? handles fuel ts).map fun (items, rest) => (.sequence p items, rest)
    else if block .blockSequenceStart then
      (blockItems? handles fuel (ts.drop 1)).map fun (items, rest) => (.sequence p items, rest)
    else if block .blockMappingStart then
      (blockEntries? handles fuel (ts.drop 1)).map fun (entries, rest) => (.mapping p entries, rest)
    else
      match ts with
      | .scalar style text :: rest => some (.scalar (scalarTag p) style text, rest)
      | .flowSequenceStart :: rest =>
        (flowItems? handles fuel true rest).map fun (items, rest) => (.sequence p items, rest)
      | .flowMappingStart :: rest =>
        (flowEntries? handles fuel true rest).map fun (entries, rest) => (.mapping p entries, rest)
      | rest => if p = {} then none else some (.scalar p .plain [], rest)

/-- A node, or an empty one before certain tokens. -/
def nodeBefore? (handles : Handles) (ends : List Token) :
    Nat → Bool → Bool → List Token → Option (WrittenNode × List Token)
  | 0, _, _, _ => none
  | fuel + 1, inBlock, inMapping, ts =>
    if isBefore ends ts then some (empty, ts) else node? handles fuel inBlock inMapping ts

/-- A value behind its colon, or an empty one. -/
def value? (handles : Handles) (ends : List Token) :
    Nat → Bool → List Token → Option (WrittenNode × List Token)
  | 0, _, _ => none
  | fuel + 1, inBlock, .value :: rest => nodeBefore? handles ends fuel inBlock inBlock rest
  | _, _, ts => some (empty, ts)

def blockItems? (handles : Handles) : Nat → List Token → Option (List WrittenNode × List Token)
  | 0, _ => none
  | _, .blockEnd :: rest => some ([], rest)
  | fuel + 1, .blockEntry :: rest => do
    let (item, rest) ← nodeBefore? handles [.blockEntry, .blockEnd] fuel true false rest
    let (items, rest) ← blockItems? handles fuel rest
    some (item :: items, rest)
  | _, _ => none

/-- The items of a sequence without a start and an end of its own. -/
def looseItems? (handles : Handles) : Nat → List Token → Option (List WrittenNode × List Token)
  | 0, _ => none
  | fuel + 1, .blockEntry :: rest => do
    let ends := [.blockEntry, .key, .value, .blockEnd]
    let (item, rest) ← nodeBefore? handles ends fuel true false rest
    let (items, rest) ← looseItems? handles fuel rest
    some (item :: items, rest)
  | _, rest => some ([], rest)

def blockEntries? (handles : Handles) :
    Nat → List Token → Option (List (WrittenNode × WrittenNode) × List Token)
  | 0, _ => none
  | _, .blockEnd :: rest => some ([], rest)
  | fuel + 1, .key :: rest => do
    let ends := [.key, .value, .blockEnd]
    let (key, rest) ← nodeBefore? handles ends fuel true true rest
    let (value, rest) ← value? handles ends fuel true rest
    let (entries, rest) ← blockEntries? handles fuel rest
    some ((key, value) :: entries, rest)
  | _, _ => none

/-- The items of a sequence in brackets; an item that starts like a key is a mapping of one
entry. -/
def flowItems? (handles : Handles) :
    Nat → Bool → List Token → Option (List WrittenNode × List Token)
  | 0, _, _ => none
  | _, _, .flowSequenceEnd :: rest => some ([], rest)
  | fuel + 1, isFirst, ts => do
    let ts ← if isFirst then some ts else afterComma? ts
    match ts with
    | .flowSequenceEnd :: rest => some ([], rest)
    | .key :: rest => do
      let (key, rest) ←
        if isBefore [.value, .flowEntry, .flowSequenceEnd] rest then some (empty, rest.drop 1)
        else node? handles fuel false false rest
      let (value, rest) ← value? handles [.flowEntry, .flowSequenceEnd] fuel false rest
      let (items, rest) ← flowItems? handles fuel false rest
      some (.mapping {} [(key, value)] :: items, rest)
    | ts => do
      let (item, rest) ← node? handles fuel false false ts
      let (items, rest) ← flowItems? handles fuel false rest
      some (item :: items, rest)

def flowEntries? (handles : Handles) :
    Nat → Bool → List Token → Option (List (WrittenNode × WrittenNode) × List Token)
  | 0, _, _ => none
  | _, _, .flowMappingEnd :: rest => some ([], rest)
  | fuel + 1, isFirst, ts => do
    let ts ← if isFirst then some ts else afterComma? ts
    match ts with
    | .flowMappingEnd :: rest => some ([], rest)
    | .key :: rest => do
      let (key, rest) ←
        nodeBefore? handles [.value, .flowEntry, .flowMappingEnd] fuel false false rest
      let (value, rest) ← value? handles [.flowEntry, .flowMappingEnd] fuel false rest
      let (entries, rest) ← flowEntries? handles fuel false rest
      some ((key, value) :: entries, rest)
    | ts => do
      let (key, rest) ← node? handles fuel false false ts
      let (entries, rest) ← flowEntries? handles fuel false rest
      some ((key, empty) :: entries, rest)

def afterComma? : List Token → Option (List Token)
  | .flowEntry :: rest => some rest
  | _ => none

end

/-! ## Documents -/

/-- The handles that directives give a meaning, each once, and what follows the directives. Of the
language there are two versions, of which one may be named, once. -/
def directives? (hasVersion : Bool) (handles : Handles) :
    List Token → Option (Handles × List Token)
  | .directive (.version major minor) :: rest =>
    if hasVersion ∨ major ≠ 1 ∨ (minor ≠ 1 ∧ minor ≠ 2) then none
    else directives? true handles rest
  | .directive (.handle handle start) :: rest =>
    if (handles.lookup handle).isSome then none
    else directives? hasVersion ((handle, start) :: handles) rest
  | rest => some (handles, rest)

/-- Whether tokens start a document that says where it starts. -/
def isExplicit : List Token → Bool
  | .directive _ :: _ => true
  | .documentStart :: _ => true
  | _ => false

/-- The root of the only document of a text; a text without tokens has none. -/
def ofTokens? (ts : List Token) : Option (Option WrittenNode) := do
  let fuel := 4 * (ts.length + 2)
  if ts = [] then some none
  else
    let (root, rest) ←
      if isExplicit ts then do
        let (handles, rest) ← directives? false [] ts
        match rest with
        | .documentStart :: rest =>
          if rest = [] || isExplicit rest || isBefore [.documentEnd] rest then some (empty, rest)
          else node? (handles ++ ownHandles) fuel true false rest
        | _ => none
      else node? ownHandles fuel true false ts
    if rest.all (· == .documentEnd) then some (some root) else none

end WrittenNode

end Docket.Yaml
