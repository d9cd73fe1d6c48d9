import SignalGuard.Yaml.Scalar

/-!
# Nodes

A document is a tree of scalars, sequences and mappings. A node may stand for an
earlier one that was given a name.
-/

namespace SignalGuard.Yaml

inductive Node
  | scalar (s : Scalar)
  | sequence (items : List Node)
  | mapping (entries : List (Node × Node))
  /-- The node with a name. -/
  | reference (target : Node)
  deriving Repr, Inhabited

namespace Node

def empty : Node := scalar .empty

mutual

/-- Number of marks in the text of the node: one for a scalar or an alias, two
for a collection besides what it holds. -/
def marks : Node → Nat
  | scalar _ | reference _ => 1
  | sequence items => 2 + marksOfItems items
  | mapping entries => 2 + marksOfEntries entries

def marksOfItems : List Node → Nat
  | [] => 0
  | n :: ns => n.marks + marksOfItems ns

def marksOfEntries : List (Node × Node) → Nat
  | [] => 0
  | (k, v) :: es => k.marks + v.marks + marksOfEntries es

end

mutual

/-- Number of aliases that a visit of the whole node follows. -/
def repeats : Node → Nat
  | scalar _ => 0
  | reference target => 1 + target.repeats
  | sequence items => repeatsOfItems items
  | mapping entries => repeatsOfEntries entries

def repeatsOfItems : List Node → Nat
  | [] => 0
  | n :: ns => n.repeats + repeatsOfItems ns

def repeatsOfEntries : List (Node × Node) → Nat
  | [] => 0
  | (k, v) :: es => k.repeats + v.repeats + repeatsOfEntries es

end

end Node

end SignalGuard.Yaml
