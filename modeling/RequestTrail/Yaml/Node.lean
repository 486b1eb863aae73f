import RequestTrail.Yaml.Token

/-!
# YAML nodes

The tree of a document. A node may be anchored under a number, and an alias stands for the node
with its number: of several, for the one that begins last in the text.
-/

namespace RequestTrail.Yaml

/-- A node of a document. -/
inductive Node where
  | scalar (anchor : Option Nat) (tag : Option (List Char)) (style : ScalarStyle) (text : List Char)
  | sequence (anchor : Option Nat) (items : List Node)
  | mapping (anchor : Option Nat) (entries : List (Node × Node))
  | alias (number : Nat)
deriving Repr

namespace Node

/-- The node that stands where nothing is written. -/
def empty : Node :=
  .scalar none none .plain []

/-- An anchored node with its number, if it has one. -/
def numbered (anchor : Option Nat) (node : Node) : List (Nat × Node) :=
  match anchor with
  | some number => [(number, node)]
  | none => []

mutual

/-- The anchored nodes of a tree with their numbers, in the order of the text. -/
def anchored : Node → List (Nat × Node)
  | .scalar anchor tag style text => numbered anchor (.scalar anchor tag style text)
  | .sequence anchor items => numbered anchor (.sequence anchor items) ++ itemsAnchored items
  | .mapping anchor entries =>
    numbered anchor (.mapping anchor entries) ++ entriesAnchored entries
  | .alias _ => []

/-- The anchored nodes among the items of a sequence. -/
def itemsAnchored : List Node → List (Nat × Node)
  | [] => []
  | item :: items => item.anchored ++ itemsAnchored items

/-- The anchored nodes among the keys and values of a mapping. -/
def entriesAnchored : List (Node × Node) → List (Nat × Node)
  | [] => []
  | (key, value) :: entries => key.anchored ++ value.anchored ++ entriesAnchored entries

end

/-- What a node of the document `root` stands for: an alias for the node it names. -/
def resolve? (root : Node) : Node → Option Node
  | .alias number => root.anchored.reverse.lookup number
  | node => some node

end Node

end RequestTrail.Yaml
