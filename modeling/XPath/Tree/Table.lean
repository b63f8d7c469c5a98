import XPath.Tree

/-!
# Trees given by a table

A table lists the nodes of a tree in document order; a node is the number of its row.

* `Table.Row`, `Table`: rows and tables;
* `Table.tree`: the tree that a table describes;
* `Table.detach`: takes a node out of the children of its parent, which makes the tree inconsistent;
* `Table.sample`: a small document with nodes of every kind.
-/

namespace XPath

structure Table.Row where
  /-- The kind of the node. -/
  kind : NodeKind
  /-- Its name. -/
  name : Option QName := none
  /-- The text that it stands for. -/
  value : String
  /-- The row of its parent. -/
  parent : Option Nat
  /-- The rows of its namespace bindings. -/
  namespaces : List Nat := []
  /-- The rows of its attributes. -/
  attributes : List Nat := []
  /-- The rows of its children. -/
  children : List Nat := []
  deriving Inhabited

/-- A list of nodes whose children come later and whose parents come earlier. -/
structure Table where
  /-- The nodes in document order. -/
  rows : List Table.Row
  children_later : ∀ (i : Nat) (r : Table.Row), rows[i]? = some r → ∀ c ∈ r.children, i < c
  parent_earlier : ∀ (i : Nat) (r : Table.Row), rows[i]? = some r → ∀ p ∈ r.parent, p < i

namespace Table

variable (t : Table)

/-- The rows to which a link of a row leads; a missing row has no links. -/
def links (link : Row → List Nat) (i : Nat) : List Nat :=
  t.rows[i]?.elim [] link

theorem height_lt {i c : Nat} (h : c ∈ t.links Row.children i) :
    t.rows.length - c < t.rows.length - i := by
  unfold links at h
  cases hr : t.rows[i]? with
  | none => simp [hr] at h
  | some r =>
    simp only [hr, Option.elim] at h
    have hc := t.children_later i r hr c h
    have := (List.getElem?_eq_some_iff.1 hr).1
    omega

theorem depth_lt {i p : Nat} (h : t.rows[i]?.bind Row.parent = some p) : p < i := by
  obtain ⟨r, hr, hp⟩ := Option.bind_eq_some_iff.1 h
  exact t.parent_earlier i r hr p hp

def tree : Tree Nat where
  kind i := t.rows[i]?.elim .text Row.kind
  name i := t.rows[i]?.bind Row.name
  stringValue i := t.rows[i]?.elim "" Row.value
  attributes := t.links Row.attributes
  namespaces := t.links Row.namespaces
  children := t.links Row.children
  parent i := t.rows[i]?.bind Row.parent
  before i j := i < j
  height i := t.rows.length - i
  depth i := i
  height_lt := t.height_lt
  depth_lt := t.depth_lt

def Row.drop (r : Row) (child : Nat) : Row :=
  { r with children := r.children.filter (· ≠ child) }

/-- Takes a node out of the children of its parent; the node still names its parent. -/
def detach (id : Nat) : Table where
  rows := t.rows.mapIdx fun i r => if t.rows[id]?.bind Row.parent = some i then r.drop id else r
  children_later := by
    intro i r h c hc
    rw [List.getElem?_mapIdx, Option.map_eq_some_iff] at h
    obtain ⟨r', hr', rfl⟩ := h
    refine t.children_later i r' hr' c ?_
    split at hc
    · exact (List.mem_filter.1 hc).1
    · exact hc
  parent_earlier := by
    intro i r h p hp
    rw [List.getElem?_mapIdx, Option.map_eq_some_iff] at h
    obtain ⟨r', hr', rfl⟩ := h
    refine t.parent_earlier i r' hr' p ?_
    split at hp <;> exact hp

/-! ### A sample -/

def sampleRows : List Row :=
  [ { kind := .root, value := "HelloInnerWorld", parent := none, children := [1, 6, 7, 10, 11] },
    { kind := .element, name := some ⟨none, "para"⟩, value := "Hello", parent := some 0,
      namespaces := [2], attributes := [3, 4], children := [5] },
    { kind := .namespaceNode, name := some ⟨none, "p"⟩, value := "urn:p", parent := some 1 },
    { kind := .attribute, name := some ⟨none, "id"⟩, value := "p1", parent := some 1 },
    { kind := .attribute, name := some ⟨some "xml", "lang"⟩, value := "en", parent := some 1 },
    { kind := .text, value := "Hello", parent := some 1 },
    { kind := .comment, value := " comment node ", parent := some 0 },
    { kind := .element, name := some ⟨none, "div"⟩, value := "Inner", parent := some 0,
      children := [8] },
    { kind := .element, name := some ⟨none, "span"⟩, value := "Inner", parent := some 7,
      children := [9] },
    { kind := .text, value := "Inner", parent := some 8 },
    { kind := .instruction, name := some ⟨none, "pi-target"⟩, value := "pi-value",
      parent := some 0 },
    { kind := .element, name := some ⟨none, "para"⟩, value := "World", parent := some 0,
      children := [12] },
    { kind := .text, value := "World", parent := some 11 } ]

/-- A small document with nodes of every kind. -/
def sample : Table where
  rows := sampleRows
  children_later := by
    have h : ∀ i : Fin sampleRows.length, ∀ c ∈ (sampleRows[i]).children, i < c := by decide
    intro i r hr c hc
    obtain ⟨hi, rfl⟩ := List.getElem?_eq_some_iff.1 hr
    exact h ⟨i, hi⟩ c hc
  parent_earlier := by
    have h : ∀ i : Fin sampleRows.length, ∀ p ∈ (sampleRows[i]).parent, p < i := by decide
    intro i r hr p hp
    obtain ⟨hi, rfl⟩ := List.getElem?_eq_some_iff.1 hr
    exact h ⟨i, hi⟩ p hp

end Table
end XPath
