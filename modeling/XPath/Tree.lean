import XPath.Name

/-!
# Trees of nodes

A tree is a way to look at nodes of some type `N`: their kinds, names and values, and the links
between them.  Walks along the links end, because every tree comes with two measures, one that falls
from a node to its children and one that falls from a node to its parent.  Nothing else is promised
here; in particular the links of a tree may disagree.

* `NodeKind`, `Tree`: the seven kinds of nodes, and trees of them;
* `Tree.inOrder`: a list of nodes in document order, each node once;
* `Tree.first?`: the first node of a list in document order;
* `Tree.attribute?`: the attribute of a node with a given name.
-/

namespace XPath

inductive NodeKind
  | root
  | element
  | attribute
  | namespaceNode
  | text
  | comment
  | instruction
  deriving DecidableEq, Inhabited

namespace NodeKind

def label : NodeKind → String
  | .root => "root"
  | .element => "element"
  | .attribute => "attribute"
  | .namespaceNode => "namespace"
  | .text => "text"
  | .comment => "comment"
  | .instruction => "processing-instruction"

/-- Whether nodes of the kind belong to an element without being its children. -/
def isOwned : NodeKind → Bool
  | .attribute | .namespaceNode => true
  | _ => false

end NodeKind

/-- A tree whose nodes are values of a type `N`. -/
structure Tree (N : Type) where
  /-- The kind of a node. -/
  kind : N → NodeKind
  /-- The name of a node, if nodes of its kind have one. -/
  name : N → Option QName
  /-- The text that a node stands for. -/
  stringValue : N → String
  /-- The attributes of a node. -/
  attributes : N → List N
  /-- The namespace bindings in scope at a node. -/
  namespaces : N → List N
  /-- The children of a node. -/
  children : N → List N
  /-- The node above a node. -/
  parent : N → Option N
  /-- Whether the first node comes before the second in document order. -/
  before : N → N → Bool
  /-- A measure that falls from a node to its children. -/
  height : N → Nat
  /-- A measure that falls from a node to its parent. -/
  depth : N → Nat
  height_lt : ∀ {n c : N}, c ∈ children n → height c < height n
  depth_lt : ∀ {n p : N}, parent n = some p → depth p < depth n

namespace Tree

variable {N : Type} (T : Tree N)

def isElement (n : N) : Bool :=
  T.kind n == .element

/-- Whether a node belongs to an element without being its child. -/
def isOwned (n : N) : Bool :=
  (T.kind n).isOwned

/-- The first attribute of a node with the given prefix, or none, and local part. -/
def attribute? (n : N) (name : QName) : Option N :=
  (T.attributes n).find? fun a => T.name a == some name

/-! ### Document order -/

def notAfter (a b : N) : Bool :=
  !T.before b a

def first? : List N → Option N
  | [] => none
  | n :: ns => some (ns.foldl (fun m x => if T.before x m then x else m) n)

/-- The list without the repetitions that stand next to each other. -/
def squeeze [DecidableEq N] : List N → List N
  | [] => []
  | [n] => [n]
  | n :: m :: ns => if n = m then squeeze (m :: ns) else n :: squeeze (m :: ns)

/-- The nodes in document order, each once. -/
def inOrder [DecidableEq N] (ns : List N) : List N :=
  squeeze (ns.mergeSort T.notAfter)

end Tree
end XPath
