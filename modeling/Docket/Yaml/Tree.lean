import Docket.Yaml.Node

/-! # Trees of YAML texts

In the tree of a document aliases name their nodes by number. An anchor has the number of the names
that were known before it, so a name that is used again shares its new number with the next new
name, and an alias stands for the last node that was given its number.
-/

namespace Docket.Yaml

/-- Names of anchors with their numbers, each name once. -/
abbrev Anchors := List (List Char × Nat)

/-- Nodes with the numbers of their anchors. -/
abbrev Targets := List (Nat × Node Nat)

/-- The anchors behind the start of a node, and the number of its anchor if it has one. -/
def Anchors.enter (anchors : Anchors) (p : Properties) : Anchors × Option Nat :=
  match p.anchor with
  | none => (anchors, none)
  | some name => ((name, anchors.length) :: anchors.filter (·.1 != name), some anchors.length)

namespace Node

/-- The target that a node with an anchor is. -/
def asTarget (number : Option Nat) (n : Node Nat) : Targets := number.toList.map fun i => (i, n)

mutual

/-- A node whose aliases have numbers, the anchors behind it, and the targets in it, each before
those inside it. Aliases come after their anchors. -/
def number? (anchors : Anchors) : WrittenNode → Option (Node Nat × Anchors × Targets)
  | .alias name => do some (.alias (← anchors.lookup name), anchors, [])
  | .scalar p style text =>
    let (anchors, i) := anchors.enter p
    let n : Node Nat := .scalar p style text
    some (n, anchors, asTarget i n)
  | .sequence p items => do
    let (anchors, i) := anchors.enter p
    let (items, anchors, inside) ← numberItems? anchors items
    let n : Node Nat := .sequence p items
    some (n, anchors, asTarget i n ++ inside)
  | .mapping p entries => do
    let (anchors, i) := anchors.enter p
    let (entries, anchors, inside) ← numberEntries? anchors entries
    let n : Node Nat := .mapping p entries
    some (n, anchors, asTarget i n ++ inside)

def numberItems? (anchors : Anchors) :
    List WrittenNode → Option (List (Node Nat) × Anchors × Targets)
  | [] => some ([], anchors, [])
  | n :: ns => do
    let (n, anchors, first) ← number? anchors n
    let (ns, anchors, more) ← numberItems? anchors ns
    some (n :: ns, anchors, first ++ more)

def numberEntries? (anchors : Anchors) :
    List (WrittenNode × WrittenNode) → Option (List (Node Nat × Node Nat) × Anchors × Targets)
  | [] => some ([], anchors, [])
  | (key, value) :: entries => do
    let (key, anchors, first) ← number? anchors key
    let (value, anchors, second) ← number? anchors value
    let (entries, anchors, more) ← numberEntries? anchors entries
    some ((key, value) :: entries, anchors, first ++ (second ++ more))

end

mutual

/-- How many nodes there are, where collections count twice, for their starts and ends. -/
def weight {Name : Type} : Node Name → Nat
  | .alias _ => 1
  | .scalar _ _ _ => 1
  | .sequence _ items => 2 + weightItems items
  | .mapping _ entries => 2 + weightEntries entries

def weightItems {Name : Type} : List (Node Name) → Nat
  | [] => 0
  | n :: ns => weight n + weightItems ns

def weightEntries {Name : Type} : List (Node Name × Node Name) → Nat
  | [] => 0
  | (key, value) :: entries => weight key + weight value + weightEntries entries

end

end Node

structure Tree where
  root : Node Nat
  targets : Targets

namespace Tree

def ofRoot? (root : WrittenNode) : Option Tree := do
  let (root, _, targets) ← Node.number? [] root
  some ⟨root, targets⟩

/-- The tree of a text, if it has a document; none if the text has errors or more documents. -/
def ofText? (text : String) : Option (Option Tree) := do
  match ← WrittenNode.ofTokens? (← tokens? text) with
  | none => some none
  | some root => (ofRoot? root).map some

/-- Readings of a tree count how often they follow an alias. -/
abbrev Reading := StateT Nat Option

/-- How often a reading may follow an alias. -/
def aliasLimit (t : Tree) : Nat := 100 * t.root.weight

def follow (t : Tree) : Node Nat → Reading (Node Nat)
  | .alias i => do
    let count ← get
    if t.aliasLimit ≤ count then failure
    set (count + 1)
    match t.targets.reverse.lookup i with
    | some n => pure n
    | none => failure
  | n => pure n

end Tree

end Docket.Yaml
