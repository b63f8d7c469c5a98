import XPath.Text.Blank
import XPath.Tree
import XPath.Xml.Document

/-!
# The tree of a document

A node of a document is the way that leads to it from the root.  Text that is nothing but white
space is not a child of its element, though it belongs to the text of it.

* `Location`: a way from the root, the last link first;
* `Document.at?`: what is found at a location;
* `Document.tree`: the document as a tree of locations.
-/

namespace XPath.Xml

/-! ### Locations -/

/-- A link from an element to something that belongs to it; the root has children only. -/
inductive Link
  /-- The binding at an index of the scope. -/
  | namespaceNode (index : Nat)
  /-- The attribute at an index. -/
  | attribute (index : Nat)
  /-- The child at an index. -/
  | child (index : Nat)
  deriving DecidableEq, Inhabited

namespace Link

/-- Bindings come before attributes, and those before children. -/
def rank : Link → Nat
  | .namespaceNode _ => 0
  | .attribute _ => 1
  | .child _ => 2

def index : Link → Nat
  | .namespaceNode i | .attribute i | .child i => i

def before (a b : Link) : Bool :=
  a.rank < b.rank || (a.rank == b.rank && a.index < b.index)

end Link

/-- A way from the root to a node, the last link first. -/
abbrev Location := List Link

/-- Whether one way from the root, the first link first, leads to an earlier node than another. -/
def wayBefore : List Link → List Link → Bool
  | _, [] => false
  | [], _ :: _ => true
  | a :: as, b :: bs => a.before b || (a == b && wayBefore as bs)

/-- Whether a location comes before another one in document order: a node comes before all that
belongs to it. -/
def Location.before (a b : Location) : Bool :=
  wayBefore a.reverse b.reverse

/-! ### What is found at a location -/

/-- What a location leads to. -/
inductive Referent
  /-- The root, with the items at the outermost level. -/
  | root (content : List Item)
  /-- An item. -/
  | item (item : Item)
  /-- An attribute of an element with the given scope. -/
  | attribute (scope : Scope) (a : Attribute)
  /-- A binding in scope at an element. -/
  | binding (b : Binding)
  deriving Inhabited

/-- Whether an item is a child: text that is only white space is none. -/
def Item.isChild : Item → Bool
  | .text s => !(Text.trim s.toList).isEmpty
  | _ => true

namespace Referent

def content : Referent → List Item
  | .root content | .item (.element _ _ _ content) => content
  | _ => []

def childItems (r : Referent) : List Item :=
  r.content.filter Item.isChild

def attributes : Referent → List Attribute
  | .item (.element _ _ attributes _) => attributes
  | _ => []

def scope : Referent → Scope
  | .item (.element _ scope _ _) => scope
  | _ => []

def follow? (r : Referent) : Link → Option Referent
  | .namespaceNode i => r.scope[i]?.map .binding
  | .attribute i => r.attributes[i]?.map (.attribute r.scope)
  | .child i => r.childItems[i]?.map .item

def kind : Referent → NodeKind
  | .root _ => .root
  | .item (.element ..) => .element
  | .item (.text _) => .text
  | .item (.comment _) => .comment
  | .item (.instruction ..) => .instruction
  | .attribute .. => .attribute
  | .binding _ => .namespaceNode

def name? : Referent → Option QName
  | .item (.element name scope _ _) => some (name.qualified scope)
  | .item (.instruction target _) => some ⟨none, target⟩
  | .attribute scope a => some (a.name.qualified scope)
  | .binding b => some ⟨none, b.space.getD ""⟩
  | _ => none

def stringValue : Referent → String
  | .root content => Item.innerTexts content
  | .item (.comment s) => s
  | .item (.instruction _ value) => value
  | .item i => i.innerText
  | .attribute _ a => a.value
  | .binding b => b.uri

/-- A measure of what lies below. -/
def height : Referent → Nat
  | .root content => Item.weights content + 1
  | .item i => i.weight
  | _ => 0

theorem weights_content_lt {r : Referent} {i : Item} (h : i ∈ r.content) :
    Item.weights r.content < r.height := by
  cases r with
  | root is => simp [content, height]
  | item j => cases j <;> simp_all [content, height, Item.weight]
  | «attribute» scope a => simp [content] at h
  | binding b => simp [content] at h

theorem height_lt_of_mem {r : Referent} {i : Item} (h : i ∈ r.childItems) :
    (item i).height < r.height := by
  have hc := (List.mem_filter.1 h).1
  exact Nat.lt_of_le_of_lt (Item.weight_le_weights hc) (weights_content_lt hc)

end Referent

/-! ### The tree -/

namespace Document

variable (d : Document)

def at? : Location → Option Referent
  | [] => some (.root d.content)
  | link :: up => (at? up).bind (·.follow? link)

/-- The locations to which links of one sort lead from a node with so many of them. -/
def links (link : Nat → Link) (count : Referent → Nat) (n : Location) : List Location :=
  (List.range ((d.at? n).elim 0 count)).map fun i => link i :: n

/-- A measure of what lies below a location. -/
def height (n : Location) : Nat :=
  (d.at? n).elim 0 Referent.height

theorem height_lt {n c : Location} (h : c ∈ d.links .child (·.childItems.length) n) :
    d.height c < d.height n := by
  obtain ⟨i, hi, rfl⟩ := List.mem_map.1 h
  rw [List.mem_range] at hi
  unfold height
  rw [at?]
  cases hr : d.at? n with
  | none => simp [hr] at hi
  | some r =>
    simp only [hr, Option.elim] at hi
    simp only [Option.bind, Referent.follow?, List.getElem?_eq_getElem hi, Option.map, Option.elim]
    exact Referent.height_lt_of_mem (List.getElem_mem hi)

def up? : Location → Option Location
  | [] => none
  | _ :: up => some up

theorem length_up?_lt {n p : Location} (h : up? n = some p) : p.length < n.length := by
  cases n with
  | nil => simp [up?] at h
  | cons link up => simp [up?] at h; simp [h]

/-- The document as a tree of locations. -/
def tree : Tree Location where
  kind n := (d.at? n).elim .text Referent.kind
  name n := (d.at? n).bind Referent.name?
  stringValue n := (d.at? n).elim "" Referent.stringValue
  attributes := d.links .attribute (·.attributes.length)
  namespaces := d.links .namespaceNode (·.scope.length)
  children := d.links .child (·.childItems.length)
  parent := up?
  before := Location.before
  height := d.height
  depth := List.length
  height_lt := d.height_lt
  depth_lt := length_up?_lt

def element? : Option Location :=
  ((d.content.filter Item.isChild).findIdx? Item.isElement).map fun i => [.child i]

end Document
end XPath.Xml
