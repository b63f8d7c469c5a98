import XPath.Proofs.Xml.Read

/-!
# What the reported names stand for

The name that a node reports is made from its expanded name and the bindings in scope: the prefix is
that of the first binding with its namespace.  Read back by the namespace nodes of the element it
mostly stands for the same expanded name.  But the first binding may have no prefix, and a name
without a prefix stands for no namespace if it is that of an attribute.

* `Tree.scope`: the bindings that the namespace nodes of an element describe;
* `Scope.expand?`: what a name stands for;
* `Scope.DefaultFirst`: a namespace whose first binding has no prefix;
* `Scope.expand?_qualified`: which names stand for the expanded name that they are made from;
* `Document.name_denotes`: the names of the elements and attributes of a document.
-/

namespace XPath

variable {N : Type}

/-- The binding that a namespace node describes; the empty name stands for no prefix. -/
def Tree.binding (T : Tree N) (n : N) : Xml.Binding :=
  ⟨(T.name n).bind fun q => if q.localPart = "" then none else some q.localPart, T.stringValue n⟩

/-- The bindings that the namespace nodes of an element describe. -/
def Tree.scope (T : Tree N) (n : N) : Xml.Scope :=
  (T.namespaces n).map T.binding

namespace Xml

namespace Scope

/-- The expanded name that a name stands for among the bindings; whether a name without a prefix
stands for one in the namespace without a prefix depends on what it is the name of. -/
def expand? (scope : Scope) (defaults : Bool) (q : QName) : Option ExpandedName :=
  match q.space with
  | none => some ⟨if defaults then scope.uri? none else none, q.localPart⟩
  | some p =>
    if p = "xml" then some ⟨some xmlUri, q.localPart⟩
    else (scope.uri? (some p)).map fun u => ⟨some u, q.localPart⟩

/-- The first binding with the namespace has no prefix. -/
def DefaultFirst (scope : Scope) (u : String) : Prop :=
  (scope.find? fun b => b.uri == u).map Binding.space = some none

instance (scope : Scope) (u : String) : Decidable (scope.DefaultFirst u) :=
  inferInstanceAs (Decidable (_ = _))

theorem not_defaultFirst {scope : Scope} {u p : String} {b : Binding}
    (h : scope.find? (fun b => b.uri == u) = some b) (hp : b.space = some p) :
    ¬scope.DefaultFirst u := by
  simp [DefaultFirst, h, hp]

/-- The namespace of `xml` has no binding, so it has no first one. -/
theorem Proper.not_defaultFirst_xml {scope : Scope} (h : scope.Proper) :
    ¬scope.DefaultFirst xmlUri := by
  have hnone : scope.find? (fun b => b.uri == xmlUri) = none := by
    rw [List.find?_eq_none]
    exact fun b hb heq => h.uri b hb (eq_of_beq heq)
  simp [DefaultFirst, hnone]

/-- A name with the prefix of the first binding with its namespace stands for the expanded name that
it is made from, unless that binding has no prefix; then it depends on what names without a prefix
stand for. -/
theorem expand?_qualified {scope : Scope} {name : ExpandedName} (defaults : Bool)
    (h : scope.Proper) (hbound : ∀ u ∈ name.uri, u = xmlUri ∨ ∃ b ∈ scope, b.uri = u)
    (hunbound : defaults → name.uri = none → scope.uri? none = none) :
    scope.expand? defaults (name.qualified scope) = some name ↔
      ∀ u ∈ name.uri, scope.DefaultFirst u → defaults ∧ scope.uri? none = some u := by
  obtain ⟨uri, localPart⟩ := name
  cases uri with
  | none =>
    -- without a namespace the name has no prefix, and only an element looks for a default
    refine iff_of_true ?_ nofun
    cases defaults with
    | false => rfl
    | true =>
      show some (ExpandedName.mk (scope.uri? none) localPart) = _
      rw [hunbound rfl rfl]
  | some u =>
    have hforall : ∀ P : String → Prop, (∀ v ∈ some u, P v) ↔ P u := by simp
    rw [hforall]
    -- the prefix `xml` is given to its namespace whatever the scope has
    by_cases hxml : u = xmlUri
    · subst hxml
      have hqualified : ExpandedName.qualified ⟨some xmlUri, localPart⟩ scope
          = ⟨some "xml", localPart⟩ := by
        simp [ExpandedName.qualified, prefixOf?]
      rw [hqualified]
      exact iff_of_true (by simp [expand?]) fun hfirst => absurd hfirst h.not_defaultFirst_xml
    · obtain ⟨b, hb, hu⟩ := (hbound u rfl).resolve_left hxml
      have hfind : (scope.find? fun b => b.uri == u).isSome :=
        List.find?_isSome.2 ⟨b, hb, beq_iff_eq.2 hu⟩
      obtain ⟨first, hfirst⟩ := Option.isSome_iff_exists.1 hfind
      have hmem : first ∈ scope := List.mem_of_find?_eq_some hfirst
      have huri : first.uri = u := eq_of_beq (List.find?_some hfirst :)
      have hqualified : ExpandedName.qualified ⟨some u, localPart⟩ scope
          = ⟨first.space, localPart⟩ := by
        simp [ExpandedName.qualified, prefixOf?, hxml, hfirst]
      rw [hqualified]
      -- the first binding with the namespace gives the prefix, if it has one
      cases hspace : first.space with
      | some p =>
        have hp : p ≠ "xml" := (h.space first hmem p hspace).2
        have hexpand : scope.expand? defaults ⟨some p, localPart⟩ = some ⟨some u, localPart⟩ := by
          simp [expand?, hp, h.unique first hmem p hspace, huri]
        exact iff_of_true hexpand fun hdefault => absurd hdefault (not_defaultFirst hfirst hspace)
      | none =>
        have hdefault : scope.DefaultFirst u := by simp [DefaultFirst, hfirst, hspace]
        cases defaults with
        | false => simp [expand?, hdefault]
        | true => simp [expand?, hdefault]

end Scope

/-- The expanded name of an element or an attribute. -/
def Referent.expanded? : Referent → Option ExpandedName
  | .item (.element name _ _ _) => some name
  | .attribute _ a => some a.name
  | _ => none

namespace Document

/-- The expanded name that a document gives a node. -/
def expandedName? (d : Document) (n : Location) : Option ExpandedName :=
  (d.at? n).bind Referent.expanded?

variable {d : Document} {n p : Location}

/-! ### Namespace nodes -/

/-- The namespace nodes of an element describe the bindings in scope there. -/
theorem scope_tree {name : ExpandedName} {scope : Scope} {attributes : List Attribute}
    {content : List Item} (hn : d.at? n = some (.item (.element name scope attributes content)))
    (h : scope.Proper) : d.tree.scope n = scope := by
  have hnodes : d.tree.namespaces n
      = (List.range scope.length).map fun i => .namespaceNode i :: n := by
    show d.links .namespaceNode (·.scope.length) n = _
    rw [links, hn]
    rfl
  rw [Tree.scope, hnodes, List.map_map]
  refine List.ext_getElem (by simp) ?_
  intro i hi hi'
  have hat : d.at? (.namespaceNode i :: n) = some (.binding scope[i]) := by
    simp [at?, hn, Referent.follow?, Referent.scope, hi']
  have hspace : ((some scope[i].space).bind fun space =>
      if space.getD "" = "" then none else some (space.getD "")) = scope[i].space := by
    cases hspace : scope[i].space with
    | none => rfl
    | some p => simp [(h.space _ (List.getElem_mem hi') p hspace).1]
  rw [List.getElem_map, List.getElem_range]
  show d.tree.binding (.namespaceNode i :: n) = scope[i]
  simp only [Tree.binding, tree, hat, Option.bind_some, Option.elim, Referent.name?,
    Referent.stringValue]
  exact congrArg (Binding.mk · scope[i].uri) hspace

/-! ### Elements and attributes -/

/-- What is found at an element. -/
theorem exists_element_of_kind (h : d.tree.kind n = .element) : ∃ name scope attributes content,
    d.at? n = some (.item (.element name scope attributes content)) := by
  cases hn : d.at? n with
  | none => simp [tree, hn] at h
  | some r =>
    rw [kind_of_at? hn] at h
    cases r with
    | root content => simp [Referent.kind] at h
    | «attribute» scope a => simp [Referent.kind] at h
    | binding b => simp [Referent.kind] at h
    | item i =>
      cases i with
      | element name scope attributes content => exact ⟨name, scope, attributes, content, rfl⟩
      | text s => simp [Referent.kind] at h
      | comment s => simp [Referent.kind] at h
      | instruction target value => simp [Referent.kind] at h

/-- What is found at an attribute, and at the element that it belongs to. -/
theorem exists_attribute_of_mem (h : n ∈ d.tree.attributes p) :
    ∃ name scope attributes content i a,
      d.at? p = some (.item (.element name scope attributes content)) ∧ attributes[i]? = some a ∧
        n = .attribute i :: p ∧ d.at? n = some (.attribute scope a) := by
  obtain ⟨r, i, hr, hi, rfl⟩ := mem_links.1 h
  have helement : r.kind = .element := by
    refine Decidable.byContradiction fun hkind => ?_
    simp [(Referent.attributes_of_kind hkind).1] at hi
  obtain ⟨name, scope, attributes, content, hp⟩ :=
    exists_element_of_kind ((kind_of_at? hr).trans helement)
  rw [hr, Option.some.injEq] at hp
  subst hp
  have ha : attributes[i]? = some attributes[i] := List.getElem?_eq_getElem hi
  refine ⟨name, scope, attributes, content, i, attributes[i], hr, ha, rfl, ?_⟩
  simp [at?, hr, Referent.follow?, Referent.attributes, Referent.scope, ha]

/-- An element is reported under a name that stands for its expanded name, unless names without a
prefix are in the way. -/
theorem element_denotes (hsound : ∀ i ∈ d.content, i.Sound) (hn : d.tree.kind n = .element) :
    ∃ name q, d.expandedName? n = some name ∧ d.tree.name n = some q ∧
      ((d.tree.scope n).expand? true q = some name ↔ ∀ u ∈ name.uri,
        (d.tree.scope n).DefaultFirst u → (d.tree.scope n).uri? none = some u) := by
  obtain ⟨name, scope, attributes, content, hat⟩ := exists_element_of_kind hn
  have hresolved := resolved_at? hsound hat
  refine ⟨name, name.qualified scope, by simp [expandedName?, hat, Referent.expanded?],
    by simp [tree, hat, Referent.name?], ?_⟩
  rw [scope_tree hat hresolved.proper, Scope.expand?_qualified true hresolved.proper
    (fun u hu => .inr (hresolved.bound u hu)) fun _ => hresolved.unbound]
  simp

/-- So is an attribute; a name without a prefix never stands for a namespace there. -/
theorem attribute_denotes (hsound : ∀ i ∈ d.content, i.Sound) (hn : n ∈ d.tree.attributes p) :
    ∃ name q, d.expandedName? n = some name ∧ d.tree.name n = some q ∧
      ((d.tree.scope p).expand? false q = some name ↔ ∀ u ∈ name.uri,
        ¬(d.tree.scope p).DefaultFirst u) := by
  obtain ⟨name, scope, attributes, content, i, a, hp, ha, rfl, hat⟩ := exists_attribute_of_mem hn
  have hresolved := resolved_at? hsound hp
  refine ⟨a.name, a.name.qualified scope, by simp [expandedName?, hat, Referent.expanded?],
    by simp [tree, hat, Referent.name?], ?_⟩
  rw [scope_tree hp hresolved.proper, Scope.expand?_qualified false hresolved.proper
    (hresolved.attributeBound a (List.mem_of_getElem? ha))
    fun hdefaults => absurd hdefaults Bool.false_ne_true]
  simp

/-- No two attributes of one element have the same expanded name. -/
theorem eq_of_expandedName? (hsound : ∀ i ∈ d.content, i.Sound) {m : Location}
    (hm : m ∈ d.tree.attributes p) (hn : n ∈ d.tree.attributes p)
    (h : d.expandedName? m = d.expandedName? n) : m = n := by
  obtain ⟨name, scope, attributes, content, i, a, hp, ha, rfl, hatM⟩ := exists_attribute_of_mem hm
  obtain ⟨name', scope', attributes', content', j, b, hp', hb, rfl, hatN⟩ :=
    exists_attribute_of_mem hn
  rw [hp, Option.some.injEq, Referent.item.injEq, Item.element.injEq] at hp'
  obtain ⟨-, -, rfl, -⟩ := hp'
  have hnames : a.name = b.name := by
    simpa [expandedName?, hatM, hatN, Referent.expanded?] using h
  have hsame : (attributes.map Attribute.name)[i]? = (attributes.map Attribute.name)[j]? := by
    rw [List.getElem?_map, List.getElem?_map, ha, hb, Option.map_some, Option.map_some, hnames]
  have hi : i < (attributes.map Attribute.name).length := by
    rw [List.length_map]
    exact (List.getElem?_eq_some_iff.1 ha).1
  rw [(List.getElem?_inj hi (resolved_at? hsound hp).distinct).1 hsame]

/-- Two attributes of one element report the same name only if the first binding with the namespace
of one of them has no prefix. -/
theorem eq_or_defaultFirst_of_name (hsound : ∀ i ∈ d.content, i.Sound) {m : Location}
    (hm : m ∈ d.tree.attributes p) (hn : n ∈ d.tree.attributes p)
    (h : d.tree.name m = d.tree.name n) :
    m = n ∨ ∃ k ∈ [m, n], ∃ name ∈ d.expandedName? k, ∃ u ∈ name.uri,
      (d.tree.scope p).DefaultFirst u := by
  obtain ⟨nameM, q, hnameM, hq, hexpandM⟩ := attribute_denotes hsound hm
  obtain ⟨nameN, q', hnameN, hq', hexpandN⟩ := attribute_denotes hsound hn
  have hsame : q = q' := by
    rw [h, hq', Option.some.injEq] at hq
    exact hq.symm
  subst hsame
  by_cases hdefault : ∃ k ∈ [m, n], ∃ name ∈ d.expandedName? k, ∃ u ∈ name.uri,
      (d.tree.scope p).DefaultFirst u
  · exact .inr hdefault
  · -- otherwise both names can be read back, and so the expanded names are the same
    have hreadM := hexpandM.2 fun u hu hfirst => hdefault ⟨m, by simp, nameM, hnameM, u, hu, hfirst⟩
    have hreadN := hexpandN.2 fun u hu hfirst => hdefault ⟨n, by simp, nameN, hnameN, u, hu, hfirst⟩
    exact .inl (eq_of_expandedName? hsound hm hn (by rw [hnameM, hnameN, ← hreadM, hreadN]))

/-- In a document that is read all names come from the bindings in scope.  In every document of
which this holds, the reported name of an element stands for its expanded name, unless the first
binding with its namespace has no prefix and names without a prefix have another namespace.  That of
an attribute does so unless the first binding with its namespace has no prefix, and two attributes
of one element report the same name only if this happens to one of them. -/
theorem name_denotes (d : Document) :
    (∀ s, read? s = some d → ∀ i ∈ d.content, i.Sound) ∧
    ((∀ i ∈ d.content, i.Sound) →
      (∀ n, d.tree.kind n = .element →
        ∃ name q, d.expandedName? n = some name ∧ d.tree.name n = some q ∧
          ((d.tree.scope n).expand? true q = some name ↔ ∀ u ∈ name.uri,
            (d.tree.scope n).DefaultFirst u → (d.tree.scope n).uri? none = some u)) ∧
      (∀ p, ∀ n ∈ d.tree.attributes p,
        ∃ name q, d.expandedName? n = some name ∧ d.tree.name n = some q ∧
          ((d.tree.scope p).expand? false q = some name ↔ ∀ u ∈ name.uri,
            ¬(d.tree.scope p).DefaultFirst u)) ∧
      ∀ p, ∀ m ∈ d.tree.attributes p, ∀ n ∈ d.tree.attributes p, d.tree.name m = d.tree.name n →
        m = n ∨ ∃ k ∈ [m, n], ∃ name ∈ d.expandedName? k, ∃ u ∈ name.uri,
          (d.tree.scope p).DefaultFirst u) := by
  refine ⟨fun s h => sound_of_read? h, fun hsound => ⟨?_, ?_, ?_⟩⟩
  · exact fun n hn => element_denotes hsound hn
  · exact fun p n hn => attribute_denotes hsound hn
  · exact fun p m hm n hn hname => eq_or_defaultFirst_of_name hsound hm hn hname

/-- An attribute whose namespace is also that of names without a prefix reports a name without a
prefix, which stands for no namespace and is the name of another attribute too. -/
theorem name_defaulted_attribute :
    ∃ d, read? "<a xmlns='u' xmlns:p='u' x='0' p:x='1'/>" = some d ∧
      d.tree.attributes [.child 0] = [[.attribute 0, .child 0], [.attribute 1, .child 0]] ∧
      d.tree.name [.attribute 0, .child 0] = some ⟨none, "x"⟩ ∧
      d.tree.name [.attribute 1, .child 0] = some ⟨none, "x"⟩ ∧
      d.expandedName? [.attribute 1, .child 0] = some ⟨some "u", "x"⟩ ∧
      (d.tree.scope [.child 0]).expand? false ⟨none, "x"⟩ = some ⟨none, "x"⟩ := by
  have hfacts : (read? "<a xmlns='u' xmlns:p='u' x='0' p:x='1'/>").map (fun d =>
      (d.tree.attributes [.child 0], d.tree.name [.attribute 0, .child 0],
        d.tree.name [.attribute 1, .child 0], d.expandedName? [.attribute 1, .child 0],
        (d.tree.scope [.child 0]).expand? false ⟨none, "x"⟩))
      = some ([[.attribute 0, .child 0], [.attribute 1, .child 0]], some ⟨none, "x"⟩,
        some ⟨none, "x"⟩, some ⟨some "u", "x"⟩, some ⟨none, "x"⟩) := by decide +kernel
  obtain ⟨d, hd, hfacts⟩ := Option.map_eq_some_iff.1 hfacts
  simp only [Prod.mk.injEq] at hfacts
  exact ⟨d, hd, hfacts⟩

/-- With another namespace for names without a prefix, the name of an element and the names of its
attributes stand for what they are made from. -/
theorem name_denotes_shadowed :
    ∃ d, read? "<a xmlns='u' xmlns:p='v'><p:b xmlns:p='w' p:y='1'/></a>" = some d ∧
      d.tree.name [.child 0, .child 0] = some ⟨some "p", "b"⟩ ∧
      (d.tree.scope [.child 0, .child 0]).expand? true ⟨some "p", "b"⟩ = some ⟨some "w", "b"⟩ ∧
      d.tree.name [.attribute 0, .child 0, .child 0] = some ⟨some "p", "y"⟩ ∧
      (d.tree.scope [.child 0, .child 0]).expand? false ⟨some "p", "y"⟩
        = some ⟨some "w", "y"⟩ := by
  have hnodes : (read? "<a xmlns='u' xmlns:p='v'><p:b xmlns:p='w' p:y='1'/></a>").map (fun d =>
      (d.tree.kind [.child 0, .child 0], d.tree.attributes [.child 0, .child 0],
        decide ((d.tree.scope [.child 0, .child 0]).DefaultFirst "w")))
      = some (.element, [[.attribute 0, .child 0, .child 0]], false) := by decide +kernel
  have hnames : (read? "<a xmlns='u' xmlns:p='v'><p:b xmlns:p='w' p:y='1'/></a>").map (fun d =>
      (d.tree.name [.child 0, .child 0], d.tree.name [.attribute 0, .child 0, .child 0],
        d.expandedName? [.child 0, .child 0], d.expandedName? [.attribute 0, .child 0, .child 0]))
      = some (some ⟨some "p", "b"⟩, some ⟨some "p", "y"⟩, some ⟨some "w", "b"⟩,
        some ⟨some "w", "y"⟩) := by decide +kernel
  obtain ⟨d, hd, hnodes⟩ := Option.map_eq_some_iff.1 hnodes
  rw [hd, Option.map_some, Option.some.injEq] at hnames
  simp only [Prod.mk.injEq, decide_eq_false_iff_not] at hnodes hnames
  obtain ⟨hkind, hattributes, hfirst⟩ := hnodes
  obtain ⟨hb, hy, hexpandedB, hexpandedY⟩ := hnames
  obtain ⟨hread, hdenotes⟩ := name_denotes d
  obtain ⟨helement, hattribute, -⟩ := hdenotes (hread _ hd)
  refine ⟨d, hd, hb, ?_, hy, ?_⟩
  · obtain ⟨name, q, hname, hq, hexpand⟩ := helement _ hkind
    rw [hexpandedB, Option.some.injEq] at hname
    rw [hb, Option.some.injEq] at hq
    subst hname hq
    refine hexpand.2 fun u hu hfirst' => absurd ?_ hfirst
    exact Option.some.inj hu ▸ hfirst'
  · obtain ⟨name, q, hname, hq, hexpand⟩ := hattribute [.child 0, .child 0]
      [.attribute 0, .child 0, .child 0] (by simp [hattributes])
    rw [hexpandedY, Option.some.injEq] at hname
    rw [hy, Option.some.injEq] at hq
    subst hname hq
    exact hexpand.2 fun u hu => Option.some.inj hu ▸ hfirst

end Document
end Xml
end XPath
