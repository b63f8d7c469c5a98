import XPath.Proofs.Tree.Linked
import XPath.Xml.Location

/-!
# The links of a document

A location names its parent by its own shape, so the links of a document agree if a link leads to a
node of the sort that it names.

* `Document.mem_links`: where the links of one sort lead;
* `Document.linked`: the links of a document agree.
-/

namespace XPath.Xml

namespace Referent

/-- What attributes and namespace bindings have is nothing. -/
theorem childItems_of_isOwned {r : Referent} (h : r.kind.isOwned) : r.childItems = [] := by
  cases r with
  | root content => simp [kind, NodeKind.isOwned] at h
  | item i => cases i <;> simp [kind, NodeKind.isOwned] at h
  | «attribute» scope a => rfl
  | binding b => rfl

/-- Only elements have attributes and namespace bindings. -/
theorem attributes_of_kind {r : Referent} (h : r.kind ≠ .element) :
    r.attributes = [] ∧ r.scope = [] := by
  cases r with
  | root content => exact ⟨rfl, rfl⟩
  | item i =>
    cases i with
    | element name scope attributes content => exact absurd rfl h
    | text s => exact ⟨rfl, rfl⟩
    | comment s => exact ⟨rfl, rfl⟩
    | instruction target value => exact ⟨rfl, rfl⟩
  | «attribute» scope a => exact ⟨rfl, rfl⟩
  | binding b => exact ⟨rfl, rfl⟩

/-- No item is an attribute or a namespace binding. -/
theorem kind_item (i : Item) : (item i).kind.isOwned = false := by
  cases i <;> rfl

end Referent

namespace Document

variable {d : Document} {link : Nat → Link} {count : Referent → Nat} {n m : Location}

/-- Links of one sort lead from a node that is there to as many locations as there are links. -/
theorem mem_links : m ∈ d.links link count n ↔ ∃ r i, d.at? n = some r ∧ i < count r ∧
    m = link i :: n := by
  unfold links
  cases hr : d.at? n with
  | none => simp
  | some r =>
    rw [Option.elim, List.mem_map]
    constructor
    · rintro ⟨i, hi, rfl⟩
      exact ⟨r, i, rfl, List.mem_range.1 hi, rfl⟩
    · rintro ⟨r', i, hr', hi, rfl⟩
      rw [Option.some.injEq] at hr'
      exact ⟨i, List.mem_range.2 (hr' ▸ hi), rfl⟩

theorem links_eq_nil (h : ∀ r, d.at? n = some r → count r = 0) : d.links link count n = [] := by
  refine List.eq_nil_iff_forall_not_mem.2 ?_
  intro m hm
  obtain ⟨r, i, hr, hi, -⟩ := mem_links.1 hm
  simp [h r hr] at hi

/-- Whatever a link leads to names the start of the link as its parent. -/
theorem parent_of_mem_links (h : m ∈ d.links link count n) : d.tree.parent m = some n := by
  obtain ⟨r, i, -, -, rfl⟩ := mem_links.1 h
  rfl

theorem kind_of_at? {r : Referent} (h : d.at? n = some r) : d.tree.kind n = r.kind := by
  simp [tree, h]

/-- The links of a document agree. -/
theorem linked (d : Document) : d.tree.Linked [] where
  parent_root := rfl
  root_not_owned := rfl
  parent_child _ _ _ hc := parent_of_mem_links hc
  child_not_owned p _ c hc := by
    obtain ⟨r, i, hr, hi, rfl⟩ := mem_links.1 hc
    have hat : d.at? (.child i :: p) = some (.item r.childItems[i]) := by
      simp [at?, hr, Referent.follow?, hi]
    rw [Tree.isOwned, kind_of_at? hat]
    exact Referent.kind_item _
  parent_attribute _ _ _ ha := parent_of_mem_links ha
  kind_attribute p _ a ha := by
    obtain ⟨r, i, hr, hi, rfl⟩ := mem_links.1 ha
    have hat : d.at? (.attribute i :: p) = some (.attribute r.scope r.attributes[i]) := by
      simp [at?, hr, Referent.follow?, hi]
    exact kind_of_at? hat
  parent_namespace _ _ _ ha := parent_of_mem_links ha
  kind_namespace p _ a ha := by
    obtain ⟨r, i, hr, hi, rfl⟩ := mem_links.1 ha
    have hat : d.at? (.namespaceNode i :: p) = some (.binding r.scope[i]) := by
      simp [at?, hr, Referent.follow?, hi]
    exact kind_of_at? hat
  children_owned n _ ho := by
    refine links_eq_nil ?_
    intro r hr
    rw [Tree.isOwned, kind_of_at? hr] at ho
    rw [Referent.childItems_of_isOwned ho]
    rfl
  attributes_other n _ he := by
    refine links_eq_nil ?_
    intro r hr
    rw [Tree.isElement, kind_of_at? hr] at he
    rw [(Referent.attributes_of_kind (ne_of_beq_false he)).1]
    rfl
  namespaces_other n _ he := by
    refine links_eq_nil ?_
    intro r hr
    rw [Tree.isElement, kind_of_at? hr] at he
    rw [(Referent.attributes_of_kind (ne_of_beq_false he)).2]
    rfl

end Document
end XPath.Xml
