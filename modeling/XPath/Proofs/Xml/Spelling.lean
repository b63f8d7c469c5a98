import XPath.Proofs.Xml.Read

/-!
# How the names in a document are spelled

Whatever the text of a document is, the names in it are made of name characters, with colons between
them, and so are the names that its nodes report.

* `IsSpelled`: a text made of such characters;
* `isSpelled_of_qname?`, `isSpelled_of_target?`: the names that are read;
* `Scope.Spelled`, `spelled_of_openElement?`: the names in one tag;
* `Item.Spelled`, `builds_spelled`: the names in the items that markup builds;
* `Referent.Spelled`, `Referent.Spelled.follow?`: the names at a node, link by link;
* `Document.isSpelled_name`: the name of every node.
-/

namespace XPath.Xml

/-- A text is made of name characters and colons. -/
def IsSpelled (s : String) : Prop :=
  ∀ c ∈ s.toList, isQNameChar c

/-! ### Names that are read -/

theorem isSpelled_ofList {cs : List Char} (h : ∀ c ∈ cs, isQNameChar c) :
    IsSpelled (String.ofList cs) := by
  rwa [IsSpelled, String.toList_ofList]

theorem isSpelled_of_all {s : String} (h : s.toList.all isQNameChar) : IsSpelled s :=
  List.all_eq_true.1 h

theorem isSpelled_append {s t : String} (hs : IsSpelled s) (ht : IsSpelled t) :
    IsSpelled (s ++ t) := by
  rw [IsSpelled, String.toList_append]
  exact List.forall_mem_append.2 ⟨hs, ht⟩

theorem isQNameChar_of_mem_takeWhile {cs : List Char} :
    ∀ c ∈ cs.takeWhile isQNameChar, isQNameChar c :=
  fun c hc => List.all_eq_true.1 List.all_takeWhile c hc

/-- The parts of a qualified name are spelled as the whole is. -/
theorem isSpelled_of_qnameOf? {cs : List Char} {q : QName} (hcs : ∀ c ∈ cs, isQNameChar c)
    (h : qnameOf? cs = some q) : (∀ p ∈ q.space, IsSpelled p) ∧ IsSpelled q.localPart := by
  have hbefore : IsSpelled (String.ofList (cs.takeWhile (· != ':'))) :=
    isSpelled_ofList fun c hc => hcs c ((List.takeWhile_sublist _).mem hc)
  unfold qnameOf? at h
  simp only at h
  split at h
  · split at h
    · rw [← Option.some.inj h]
      exact ⟨fun p hp => absurd hp (Option.not_mem_none p), hbefore⟩
    · simp at h
  · rename_i after hdrop
    split at h
    · simp at h
    · rw [← Option.some.inj h]
      refine ⟨fun p hp => ?_, isSpelled_ofList fun c hc => hcs c ?_⟩
      · split at hp
        · cases hp
        · exact Option.some.inj hp ▸ hbefore
      · exact (List.dropWhile_sublist _).mem (hdrop ▸ List.mem_cons_of_mem _ hc)

theorem isSpelled_of_qname? {q : QName} (h : QNameRead q) :
    (∀ p ∈ q.space, IsSpelled p) ∧ IsSpelled q.localPart := by
  obtain ⟨cs, rest, h⟩ := h
  obtain ⟨q', hq, heq⟩ := Option.map_eq_some_iff.1 h
  obtain rfl : q' = q := congrArg Prod.fst heq
  exact isSpelled_of_qnameOf? isQNameChar_of_mem_takeWhile hq

theorem isSpelled_of_target? {cs rest : List Char} {s : String} (h : target? cs = some (s, rest)) :
    IsSpelled s := by
  unfold target? at h
  split at h
  · obtain rfl : String.ofList (cs.takeWhile isQNameChar) = s :=
      congrArg Prod.fst (Option.some.inj h)
    exact isSpelled_ofList isQNameChar_of_mem_takeWhile
  · simp at h

/-! ### One tag -/

namespace Scope

/-- The prefixes of the bindings are spelled as names. -/
def Spelled (scope : Scope) : Prop :=
  ∀ b ∈ scope, ∀ p ∈ b.space, IsSpelled p

theorem Spelled.snoc {scope : Scope} {b : Binding} (h : scope.Spelled)
    (hb : ∀ p ∈ b.space, IsSpelled p) : Spelled (scope ++ [b]) :=
  List.forall_mem_append.2 ⟨h, List.forall_mem_singleton.2 hb⟩

theorem Spelled.inherit {scope : Scope} {b : Binding} (h : scope.Spelled)
    (hb : ∀ p ∈ b.space, IsSpelled p) : (scope.inherit b).Spelled := by
  unfold Scope.inherit
  split
  · exact h
  · exact h.snoc hb

theorem Spelled.extend {outer own : Scope} (houter : outer.Spelled) (hown : own.Spelled) :
    (outer.extend own).Spelled :=
  extend_induction houter hown fun _ hscope b hb => hscope.inherit (houter b hb)

/-- The prefix of a namespace is that of a binding, or `xml`. -/
theorem Spelled.prefixOf? {scope : Scope} (h : scope.Spelled) {u p : String}
    (hp : scope.prefixOf? u = some p) : IsSpelled p := by
  unfold Scope.prefixOf? at hp
  split at hp
  · rw [← Option.some.inj hp]
    exact isSpelled_of_all (by decide)
  · obtain ⟨b, hb, hspace⟩ := Option.bind_eq_some_iff.1 hp
    exact h b (List.mem_of_find?_eq_some hb) p hspace

end Scope

theorem spelled_of_declarePrefix? {own own' : Scope} {space uri : String} (h : own.Spelled)
    (hspace : IsSpelled space) (h' : declarePrefix? own space uri = some own') : own'.Spelled := by
  unfold declarePrefix? at h'
  split at h'
  · simp at h'
  · split at h'
    · exact Option.some.inj h' ▸ h
    · exact Option.some.inj h' ▸ h.snoc fun p hp => Option.some.inj hp ▸ hspace

theorem spelled_of_declareDefault? {own own' : Scope} {uri : String} (h : own.Spelled)
    (h' : declareDefault? own uri = some own') : own'.Spelled := by
  unfold declareDefault? at h'
  split at h'
  · simp at h'
  · rw [← Option.some.inj h']
    exact h.snoc fun p hp => absurd hp (Option.not_mem_none p)

theorem spelled_of_declarations? {own : Scope} {as rest : List RawAttribute}
    (hwords : ∀ a ∈ as, IsSpelled a.name.localPart) (h : declarations? [] as = some (own, rest)) :
    own.Spelled ∧ ∀ a ∈ rest, IsSpelled a.name.localPart :=
  (declarations?_induction (fun a ha _ _ hown => spelled_of_declarePrefix? hown (hwords a ha))
    (fun _ _ _ hown => spelled_of_declareDefault? hown) (List.forall_mem_nil _) h).imp id
    fun hrest a ha => hwords a (hrest a ha)

theorem localPart_of_elementName? {scope : Scope} {q : QName} {name : ExpandedName}
    (h : elementName? scope q = some name) : name.localPart = q.localPart := by
  unfold elementName? at h
  split at h
  · rw [← Option.some.inj h]
  · split at h
    · simp at h
    · obtain ⟨u, -, rfl⟩ := Option.map_eq_some_iff.1 h
      rfl

theorem localPart_of_attributeName? {scope : Scope} {q : QName} {name : ExpandedName}
    (h : attributeName? scope q = some name) : name.localPart = q.localPart := by
  unfold attributeName? at h
  split at h
  · rw [← Option.some.inj h]
  · split at h
    · rw [← Option.some.inj h]
    · obtain ⟨u, -, rfl⟩ := Option.map_eq_some_iff.1 h
      rfl

/-- The names in a tag: that of the element, the prefixes in scope and the names of the attributes.
-/
structure Spelled (name : ExpandedName) (scope : Scope) (attributes : List Attribute) : Prop where
  localPart : IsSpelled name.localPart
  scope : scope.Spelled
  attributes : ∀ a ∈ attributes, IsSpelled a.name.localPart

theorem spelled_of_openElement? {outer : Scope} {earlier : List Item} {tag : QName}
    {as : List RawAttribute} {e : OpenElement} (houter : outer.Spelled)
    (hnames : QNameRead tag ∧ ∀ a ∈ as, QNameRead a.name)
    (h : openElement? outer earlier tag as = some e) : Spelled e.name e.scope e.attributes := by
  have has : ∀ a ∈ as, IsSpelled a.name.localPart :=
    fun a ha => (isSpelled_of_qname? (hnames.2 a ha)).2
  simp only [openElement?, Option.bind_eq_bind, Option.bind_eq_some_iff] at h
  obtain ⟨⟨own, rest⟩, hown, attributes, hattributes, name, hname, h⟩ := h
  obtain ⟨hown, hrest⟩ := spelled_of_declarations? has hown
  split at h
  · rw [Option.pure_def, Option.some.injEq] at h
    rw [← h]
    refine ⟨?_, houter.extend hown, fun a ha => ?_⟩
    · rw [localPart_of_elementName? hname]
      exact (isSpelled_of_qname? hnames.1).2
    · obtain ⟨raw, hraw, hresolve⟩ := exists_of_mem_mapM hattributes a ha
      obtain ⟨resolved, hresolved, rfl⟩ := Option.map_eq_some_iff.1 hresolve
      rw [localPart_of_attributeName? hresolved]
      exact hrest raw hraw
  · simp at h

/-! ### All tags -/

/-- In an item all names are spelled as such. -/
inductive Item.Spelled : Item → Prop
  | element {name scope attributes content} (spelled : Xml.Spelled name scope attributes)
    (inside : ∀ i ∈ content, Item.Spelled i) : Item.Spelled (.element name scope attributes content)
  | text {s} : Item.Spelled (.text s)
  | comment {s} : Item.Spelled (.comment s)
  | instruction {target value} (spelled : IsSpelled target) :
    Item.Spelled (.instruction target value)

/-- So they are in an open element and in the items before it. -/
structure OpenElement.Spelled (e : OpenElement) : Prop where
  spelled : Xml.Spelled e.name e.scope e.attributes
  earlier : ∀ i ∈ e.earlier, i.Spelled

theorem spelled_innerScope {opened : List OpenElement} (h : ∀ e ∈ opened, e.Spelled) :
    (innerScope opened).Spelled := by
  cases opened with
  | nil => exact List.forall_mem_nil _
  | cons e opened => exact (h e List.mem_cons_self).spelled.scope

theorem builds_spelled : Builds OpenElement.Spelled Item.Spelled where
  text _ := .text
  comment _ := .comment
  instruction _ _ := fun ⟨_, _, h⟩ => .instruction (isSpelled_of_target? h)
  opening hopened hitems hnamed he :=
    ⟨spelled_of_openElement? (spelled_innerScope hopened) hnamed he,
      earlier_of_openElement? he ▸ hitems⟩
  earlier he := he.earlier
  finish he hcontent := .element he.spelled fun i hi => hcontent i (List.mem_reverse.1 hi)

/-! ### All nodes -/

theorem isSpelled_toText {q : QName} (hspace : ∀ p ∈ q.space, IsSpelled p)
    (hlocal : IsSpelled q.localPart) : IsSpelled q.toText := by
  obtain ⟨space, localPart⟩ := q
  cases space with
  | none => exact hlocal
  | some p =>
    have hcolon : IsSpelled ":" := isSpelled_of_all (by decide)
    exact isSpelled_append (isSpelled_append (hspace p rfl) hcolon) hlocal

/-- A name that is written with the prefixes in scope. -/
theorem isSpelled_qualified {name : ExpandedName} {scope : Scope} (hscope : scope.Spelled)
    (hlocal : IsSpelled name.localPart) : IsSpelled (name.qualified scope).toText := by
  refine isSpelled_toText (fun p hp => ?_) hlocal
  obtain ⟨u, -, hu⟩ := Option.bind_eq_some_iff.1 hp
  exact hscope.prefixOf? hu

/-- The names at a node, and in what lies inside it, are spelled as such. -/
def Referent.Spelled : Referent → Prop
  | .root content => ∀ i ∈ content, i.Spelled
  | .item i => i.Spelled
  | .attribute scope a => scope.Spelled ∧ IsSpelled a.name.localPart
  | .binding b => ∀ p ∈ b.space, IsSpelled p

namespace Referent

variable {r r' : Referent}

/-- What lies inside a node: its items, the bindings in scope and its attributes. -/
theorem Spelled.inside (h : r.Spelled) : (∀ i ∈ r.content, i.Spelled) ∧ r.scope.Spelled ∧
    ∀ a ∈ r.attributes, IsSpelled a.name.localPart := by
  have hnone : (∀ i ∈ ([] : List Item), i.Spelled) ∧ Scope.Spelled [] ∧
      ∀ a ∈ ([] : List Attribute), IsSpelled a.name.localPart :=
    ⟨List.forall_mem_nil _, List.forall_mem_nil _, List.forall_mem_nil _⟩
  cases r with
  | root content => exact ⟨h, hnone.2⟩
  | item i =>
    cases h with
    | element spelled inside => exact ⟨inside, spelled.scope, spelled.attributes⟩
    | text => exact hnone
    | comment => exact hnone
    | instruction spelled => exact hnone
  | «attribute» scope a => exact hnone
  | binding b => exact hnone

/-- A link leads to names that are spelled as such. -/
theorem Spelled.follow? (h : r.Spelled) {link : Link} (hr : r.follow? link = some r') :
    r'.Spelled := by
  obtain ⟨hcontent, hscope, hattributes⟩ := h.inside
  cases link with
  | namespaceNode i =>
    obtain ⟨b, hb, rfl⟩ := Option.map_eq_some_iff.1 hr
    exact hscope b (List.mem_of_getElem? hb)
  | «attribute» i =>
    obtain ⟨a, ha, rfl⟩ := Option.map_eq_some_iff.1 hr
    exact ⟨hscope, hattributes a (List.mem_of_getElem? ha)⟩
  | child i =>
    obtain ⟨item, hitem, rfl⟩ := Option.map_eq_some_iff.1 hr
    exact hcontent item (List.mem_filter.1 (List.mem_of_getElem? hitem)).1

/-- So is the name that a node reports. -/
theorem Spelled.name? (h : r.Spelled) {q : QName} (hq : r.name? = some q) : IsSpelled q.toText := by
  cases r with
  | root content => cases hq
  | item i =>
    cases h with
    | element spelled inside =>
      exact Option.some.inj hq ▸ isSpelled_qualified spelled.scope spelled.localPart
    | text => cases hq
    | comment => cases hq
    | instruction spelled => exact Option.some.inj hq ▸ spelled
  | «attribute» scope a => exact Option.some.inj hq ▸ isSpelled_qualified h.1 h.2
  | binding b =>
    rw [← Option.some.inj hq]
    cases hspace : b.space with
    | none => exact List.forall_mem_nil _
    | some p => exact h p hspace

end Referent

namespace Document

variable {d : Document} {n : Location}

theorem spelled_at? (h : ∀ i ∈ d.content, i.Spelled) :
    ∀ {r : Referent}, d.at? n = some r → r.Spelled := by
  induction n with
  | nil =>
    intro r hr
    exact Option.some.inj hr ▸ h
  | cons link up ih =>
    intro r hr
    obtain ⟨r', hr', hfollow⟩ := Option.bind_eq_some_iff.1 hr
    exact (ih hr').follow? hfollow

/-- The name of every node of a document that is read is made of name characters and colons. -/
theorem isSpelled_name {s : String} (h : read? s = some d) {q : QName}
    (hq : d.tree.name n = some q) :
    IsSpelled q.toText := by
  obtain ⟨r, hr, hname⟩ := Option.bind_eq_some_iff.1 hq
  exact (spelled_at? (builds_spelled.of_read? h) hr).name? hname

end Document
end XPath.Xml
