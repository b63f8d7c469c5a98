import XPath.Proofs.Xml.Location

/-!
# Documents that are read

A document that is read from a text is more than a sequence of items: the bindings in scope at its
elements come from declarations, and the names of its elements and attributes from these bindings.

* `Scope.Proper`, `Scope.Proper.extend`: scopes made of declarations;
* `declarations?_induction`: what all declarations in a tag keep;
* `Markup.Named`, `Markup.named_of_all?`: every name in the markup was read as one;
* `Resolved`, `resolved_of_openElement?`: the names in one tag;
* `Builds`, `Builds.of_itemsOf?`: what markup keeps of its items, by induction on the markup;
* `Item.Sound`, `Document.sound_of_read?`: every element that is read;
* `Document.sound_at?`: every node of a document that is read.
-/

namespace XPath.Xml

/-! ### Scopes -/

namespace Scope

theorem uri?_append (s t : Scope) (space : Option String) :
    (s ++ t).uri? space = (s.uri? space).or (t.uri? space) := by
  rw [uri?, List.find?_append, Option.map_or]
  rfl

theorem uri?_singleton (b : Binding) (space : Option String) :
    uri? [b] space = if b.space = space then some b.uri else none := by
  by_cases h : b.space = space
  · simp [uri?, h]
  · simp [uri?, h]

/-- What a prefix stands for is the namespace of a binding. -/
theorem exists_of_uri? {s : Scope} {space : Option String} {u : String}
    (h : s.uri? space = some u) : ∃ b ∈ s, b.uri = u := by
  obtain ⟨b, hb, hu⟩ := Option.map_eq_some_iff.1 h
  exact ⟨b, List.mem_of_find?_eq_some hb, hu⟩

/-- A scope made of declarations: every prefix is a word and has one namespace, and neither the
prefix `xml` nor its namespace is among the bindings. -/
structure Proper (scope : Scope) : Prop where
  /-- No prefix is empty, and none is `xml`. -/
  space : ∀ b ∈ scope, ∀ p ∈ b.space, p ≠ "" ∧ p ≠ "xml"
  /-- No namespace is that of `xml`. -/
  uri : ∀ b ∈ scope, b.uri ≠ xmlUri
  /-- A prefix stands for the namespace of each of its bindings. -/
  unique : ∀ b ∈ scope, ∀ p ∈ b.space, scope.uri? (some p) = some b.uri

theorem proper_nil : Proper [] :=
  ⟨nofun, nofun, nofun⟩

/-- A binding may be added behind the others if its prefix is new. -/
theorem Proper.snoc {scope : Scope} {b : Binding} (h : scope.Proper)
    (hspace : ∀ p ∈ b.space, p ≠ "" ∧ p ≠ "xml" ∧ scope.uri? (some p) = none)
    (huri : b.uri ≠ xmlUri) : Proper (scope ++ [b]) where
  space := by
    refine List.forall_mem_append.2 ⟨h.space, List.forall_mem_singleton.2 ?_⟩
    exact fun p hp => ⟨(hspace p hp).1, (hspace p hp).2.1⟩
  uri := List.forall_mem_append.2 ⟨h.uri, List.forall_mem_singleton.2 huri⟩
  unique := by
    refine List.forall_mem_append.2 ⟨?_, List.forall_mem_singleton.2 ?_⟩
    · intro c hc p hp
      rw [uri?_append, h.unique c hc p hp, Option.some_or]
    · intro p hp
      rw [uri?_append, (hspace p hp).2.2, Option.none_or, uri?_singleton,
        if_pos (Option.mem_def.1 hp)]

theorem Proper.inherit {scope : Scope} {b : Binding} (h : scope.Proper)
    (hspace : ∀ p ∈ b.space, p ≠ "" ∧ p ≠ "xml") (huri : b.uri ≠ xmlUri) :
    (scope.inherit b).Proper := by
  unfold Scope.inherit
  split
  · exact h
  · rename_i hnew
    refine h.snoc (fun p hp => ⟨(hspace p hp).1, (hspace p hp).2, ?_⟩) huri
    rw [Option.mem_def.1 hp] at hnew
    exact Option.not_isSome_iff_eq_none.1 hnew

/-- What holds of the declarations in a tag holds of the scope inside it, if it holds of the scope
around it and no binding that is inherited breaks it. -/
theorem extend_induction {P : Scope → Prop} {outer own : Scope} (houter : P outer) (hown : P own)
    (hinherit : ∀ scope, P scope → ∀ b ∈ outer, P (scope.inherit b)) : P (outer.extend own) := by
  unfold Scope.extend
  split
  · exact houter
  · exact List.foldlRecOn outer Scope.inherit hown hinherit

/-- The scope inside an element is made of declarations if the scope around it is. -/
theorem Proper.extend {outer own : Scope} (houter : outer.Proper) (hown : own.Proper) :
    (outer.extend own).Proper :=
  extend_induction houter hown fun _ hscope b hb =>
    hscope.inherit (houter.space b hb) (houter.uri b hb)

end Scope

/-! ### Declarations -/

/-- What every declaration keeps holds of all declarations in a tag, and the attributes left are
some of those given. -/
theorem declarations?_induction {P : Scope → Prop} {as : List RawAttribute}
    (hspace : ∀ a ∈ as, ∀ own own', P own →
      declarePrefix? own a.name.localPart a.value = some own' → P own')
    (hdefault : ∀ own own' uri, P own → declareDefault? own uri = some own' → P own') :
    ∀ {own own' : Scope} {rest : List RawAttribute}, P own →
      declarations? own as = some (own', rest) → P own' ∧ ∀ a ∈ rest, a ∈ as := by
  induction as with
  | nil =>
    intro own own' rest hown h
    rw [declarations?, Option.some.injEq, Prod.mk.injEq] at h
    exact ⟨h.1 ▸ hown, h.2 ▸ List.forall_mem_nil _⟩
  | cons a as ih =>
    intro own own' rest hown h
    obtain ⟨ha, hspace⟩ := List.forall_mem_cons.1 hspace
    have hbehind {rest : List RawAttribute} (hrest : ∀ b ∈ rest, b ∈ as) :
        ∀ b ∈ rest, b ∈ a :: as :=
      fun b hb => List.mem_cons_of_mem a (hrest b hb)
    unfold declarations? at h
    split at h
    · obtain ⟨declared, hdeclared, h⟩ := Option.bind_eq_some_iff.1 h
      exact (ih hspace (ha _ _ hown hdeclared) h).imp id hbehind
    · split at h
      · obtain ⟨declared, hdeclared, h⟩ := Option.bind_eq_some_iff.1 h
        exact (ih hspace (hdefault _ _ _ hown hdeclared) h).imp id hbehind
      · obtain ⟨⟨own'', rest'⟩, hrest, heq⟩ := Option.map_eq_some_iff.1 h
        rw [Prod.mk.injEq] at heq
        obtain ⟨hown'', hrest'⟩ := ih hspace hown hrest
        exact ⟨heq.1 ▸ hown'', heq.2 ▸ List.forall_mem_cons.2 ⟨List.mem_cons_self, hbehind hrest'⟩⟩

theorem proper_of_declarePrefix? {own own' : Scope} {space uri : String} (h : own.Proper)
    (hspace : space ≠ "") (h' : declarePrefix? own space uri = some own') : own'.Proper := by
  unfold declarePrefix? at h'
  split at h'
  · simp at h'
  · rename_i hallowed
    obtain ⟨-, hxml, hnew⟩ := by simpa only [not_or] using hallowed
    split at h'
    · exact Option.some.inj h' ▸ h
    · rename_i hspace'
      rw [← Option.some.inj h']
      refine h.snoc ?_ ?_
      · intro p hp
        obtain rfl : space = p := Option.some.inj hp
        exact ⟨hspace, hspace', Option.not_isSome_iff_eq_none.1 hnew⟩
      · intro huri
        have huri : uri = xmlUri := huri
        exact hxml (iff_of_false hspace' (not_not_intro huri))

theorem proper_of_declareDefault? {own own' : Scope} {uri : String} (h : own.Proper)
    (h' : declareDefault? own uri = some own') : own'.Proper := by
  unfold declareDefault? at h'
  split at h'
  · simp at h'
  · rename_i hallowed
    rw [← Option.some.inj h']
    exact h.snoc nofun (not_or.1 hallowed).2

/-- The declarations in a tag are a scope. -/
theorem proper_of_declarations? {own : Scope} {as rest : List RawAttribute}
    (hwords : ∀ a ∈ as, a.name.localPart ≠ "") (h : declarations? [] as = some (own, rest)) :
    own.Proper :=
  (declarations?_induction (fun a ha _ _ hown => proper_of_declarePrefix? hown (hwords a ha))
    (fun _ _ _ hown => proper_of_declareDefault? hown) Scope.proper_nil h).1

/-! ### The words in tags -/

theorem localPart_ne_of_qname? {cs rest : List Char} {q : QName}
    (h : qname? cs = some (q, rest)) : q.localPart ≠ "" := by
  have hne : ∀ w : List Char, beginsName w → String.ofList w ≠ "" := by
    rintro w hw heq
    have hnil : w = [] := by rw [← String.toList_ofList (l := w), heq]; rfl
    rw [hnil] at hw
    exact absurd hw (by decide)
  obtain ⟨q', hq, heq⟩ := Option.map_eq_some_iff.1 h
  obtain rfl : q' = q := congrArg Prod.fst heq
  unfold qnameOf? at hq
  simp only at hq
  split at hq
  · split at hq
    · rename_i hbegins
      rw [← Option.some.inj hq]
      exact hne _ hbegins
    · simp at hq
  · split at hq
    · simp at hq
    · rename_i hallowed
      simp only [Bool.or_eq_true, not_or, Bool.not_eq_true', Bool.not_eq_false] at hallowed
      rw [← Option.some.inj hq]
      exact hne _ hallowed.1.2

/-- A name was read as a qualified name somewhere. -/
def QNameRead (q : QName) : Prop :=
  ∃ cs rest, qname? cs = some (q, rest)

theorem qnameRead_of_attribute? {cs rest : List Char} {a : RawAttribute}
    (h : attribute? cs = some (a, rest)) : QNameRead a.name := by
  simp only [attribute?, Option.bind_eq_bind, Option.bind_eq_some_iff] at h
  obtain ⟨⟨⟨q, value⟩, r⟩, hw, ps, -, hret⟩ := h
  simp only [Option.pure_def, Option.some.injEq, Prod.mk.injEq] at hret
  rw [← hret.1]
  simp only [writtenAttribute?, Option.bind_eq_bind, Option.bind_eq_some_iff] at hw
  obtain ⟨⟨q', cs'⟩, hq, cs'', -, hw⟩ := hw
  split at hw
  · simp at hw
  · split at hw
    · simp at hw
    · split at hw
      · simp at hw
      · obtain ⟨r', -, hret⟩ := Option.bind_eq_some_iff.1 hw
        simp only [Option.pure_def, Option.some.injEq, Prod.mk.injEq] at hret
        rw [← hret.1.1]
        exact ⟨_, _, hq⟩

theorem qnameRead_of_attributes? {cs rest : List Char} {as : List RawAttribute}
    {isEmpty : Bool} (h : attributes? cs = some (as, isEmpty, rest)) :
    ∀ a ∈ as, QNameRead a.name := by
  fun_induction attributes? cs generalizing as isEmpty rest with
  | case1 cs r hs =>
    simp only [Option.some.injEq, Prod.mk.injEq] at h
    exact h.1 ▸ List.forall_mem_nil _
  | case2 cs r hs =>
    simp only [Option.some.injEq, Prod.mk.injEq] at h
    exact h.1 ▸ List.forall_mem_nil _
  | case3 => simp at h
  | case4 cs _ _ hlt a r ha ih =>
    obtain ⟨⟨as', isEmpty', r'⟩, hr, heq⟩ := Option.map_eq_some_iff.1 h
    simp only [Prod.mk.injEq] at heq
    rw [← heq.1]
    exact List.forall_mem_cons.2 ⟨qnameRead_of_attribute? ha, ih hr⟩
  | case5 => simp at h

namespace Markup

/-- The names of the element and of the attributes in a tag were read as qualified names, and the
target of an instruction as a target. -/
def Named : Markup → Prop
  | .opening tag as _ => QNameRead tag ∧ ∀ a ∈ as, QNameRead a.name
  | .instruction target _ => ∃ cs rest, target? cs = some (target, rest)
  | _ => True

theorem named_of_next? {cs rest : List Char} {m : Markup} (h : next? cs = some (m, rest)) :
    m.Named := by
  unfold next? at h
  split at h
  -- a comment, and then a section of characters
  · simp only [comment?, Option.bind_eq_bind, Option.bind_eq_some_iff] at h
    obtain ⟨_, _, h⟩ := h
    split at h
    · simp at h
    · simp only [Option.pure_def, Option.some.injEq, Prod.mk.injEq] at h
      exact h.1 ▸ trivial
  · simp only [section?, Option.bind_eq_bind, Option.bind_eq_some_iff] at h
    obtain ⟨_, _, h⟩ := h
    split at h
    · simp at h
    · simp only [Option.pure_def, Option.some.injEq, Prod.mk.injEq] at h
      exact h.1 ▸ trivial
  -- an instruction has a target
  · unfold instruction? at h
    split at h
    · simp at h
    · simp only [Option.bind_eq_bind, Option.bind_eq_some_iff] at h
      obtain ⟨_, htarget, _, _, h⟩ := h
      split at h
      · simp at h
      · simp only [Option.pure_def, Option.some.injEq, Prod.mk.injEq] at h
        exact h.1 ▸ ⟨_, _, htarget⟩
  -- a closing tag, and then an opening one with its attributes
  · simp only [closing?, Option.bind_eq_bind, Option.bind_eq_some_iff] at h
    obtain ⟨_, _, _, _, h⟩ := h
    simp only [Option.pure_def, Option.some.injEq, Prod.mk.injEq] at h
    exact h.1 ▸ trivial
  · simp only [opening?, Option.bind_eq_bind, Option.bind_eq_some_iff] at h
    obtain ⟨_, htag, ⟨as, isEmpty, _⟩, has, h⟩ := h
    simp only [Option.pure_def, Option.some.injEq, Prod.mk.injEq] at h
    exact h.1 ▸ ⟨⟨_, _, htag⟩, qnameRead_of_attributes? has⟩
  -- text
  · unfold text? at h
    simp only at h
    split at h
    · simp at h
    · simp only [Option.bind_eq_bind, Option.bind_eq_some_iff] at h
      obtain ⟨_, _, h⟩ := h
      simp only [Option.pure_def, Option.some.injEq, Prod.mk.injEq] at h
      exact h.1 ▸ trivial

theorem named_of_all? {cs : List Char} {ms : List Markup} (h : all? cs = some ms) :
    ∀ m ∈ ms, m.Named := by
  fun_induction all? cs generalizing ms with
  | case1 => exact Option.some.inj h ▸ List.forall_mem_nil _
  | case2 => simp at h
  | case3 cs hne m rest hnext ih =>
    obtain ⟨ms', hms, rfl⟩ := Option.map_eq_some_iff.1 h
    exact List.forall_mem_cons.2 ⟨named_of_next? hnext, ih hms⟩

end Markup

/-! ### One tag -/

/-- The names of an element and of its attributes come from the bindings in scope, which are made of
declarations, and no two of its attributes have the same name. -/
structure Resolved (name : ExpandedName) (scope : Scope) (attributes : List Attribute) : Prop where
  proper : scope.Proper
  /-- Where there is no namespace for names without a prefix, the element may have none. -/
  unbound : name.uri = none → scope.uri? none = none
  bound : ∀ u ∈ name.uri, ∃ b ∈ scope, b.uri = u
  attributeBound : ∀ a ∈ attributes, ∀ u ∈ a.name.uri, u = xmlUri ∨ ∃ b ∈ scope, b.uri = u
  distinct : (attributes.map Attribute.name).Nodup

theorem elementName?_bound {scope : Scope} {q : QName} {name : ExpandedName}
    (h : elementName? scope q = some name) : (name.uri = none → scope.uri? none = none) ∧
      ∀ u ∈ name.uri, ∃ b ∈ scope, b.uri = u := by
  unfold elementName? at h
  split at h
  · rw [← Option.some.inj h]
    exact ⟨fun hnone => hnone, fun u hu => Scope.exists_of_uri? hu⟩
  · split at h
    · simp at h
    · obtain ⟨u, hu, rfl⟩ := Option.map_eq_some_iff.1 h
      refine ⟨nofun, fun v hv => Scope.exists_of_uri? (hu.trans hv)⟩

theorem attributeName?_bound {scope : Scope} {q : QName} {name : ExpandedName}
    (h : attributeName? scope q = some name) :
    ∀ u ∈ name.uri, u = xmlUri ∨ ∃ b ∈ scope, b.uri = u := by
  unfold attributeName? at h
  split at h
  · rw [← Option.some.inj h]
    exact nofun
  · split at h
    · rw [← Option.some.inj h]
      exact fun u hu => .inl (Option.some.inj hu).symm
    · obtain ⟨u, hu, rfl⟩ := Option.map_eq_some_iff.1 h
      exact fun v hv => .inr (Scope.exists_of_uri? (hu.trans hv))

theorem exists_of_mem_mapM {α β : Type} {f : α → Option β} {as : List α} :
    ∀ {bs : List β}, as.mapM f = some bs → ∀ b ∈ bs, ∃ a ∈ as, f a = some b := by
  induction as with
  | nil =>
    intro bs h
    rw [List.mapM_nil, Option.pure_def, Option.some.injEq] at h
    exact h ▸ List.forall_mem_nil _
  | cons a as ih =>
    intro bs h
    simp only [List.mapM_cons, Option.bind_eq_bind, Option.bind_eq_some_iff, Option.pure_def,
      Option.some.injEq] at h
    obtain ⟨c, hc, cs, hcs, rfl⟩ := h
    refine List.forall_mem_cons.2 ⟨⟨a, List.mem_cons_self, hc⟩, fun b hb => ?_⟩
    obtain ⟨a', ha', hb⟩ := ih hcs b hb
    exact ⟨a', List.mem_cons_of_mem a ha', hb⟩

theorem earlier_of_openElement? {outer : Scope} {earlier : List Item} {tag : QName}
    {as : List RawAttribute} {e : OpenElement} (h : openElement? outer earlier tag as = some e) :
    e.earlier = earlier := by
  simp only [openElement?, Option.bind_eq_bind, Option.bind_eq_some_iff] at h
  obtain ⟨_, _, _, _, _, _, h⟩ := h
  split at h
  · rw [Option.pure_def, Option.some.injEq] at h
    rw [← h]
  · simp at h

theorem resolved_of_openElement? {outer : Scope} {earlier : List Item} {tag : QName}
    {as : List RawAttribute} {e : OpenElement} (houter : outer.Proper)
    (hnames : ∀ a ∈ as, QNameRead a.name) (h : openElement? outer earlier tag as = some e) :
    Resolved e.name e.scope e.attributes := by
  have hwords : ∀ a ∈ as, a.name.localPart ≠ "" := by
    intro a ha
    obtain ⟨cs, rest, hq⟩ := hnames a ha
    exact localPart_ne_of_qname? hq
  simp only [openElement?, Option.bind_eq_bind, Option.bind_eq_some_iff] at h
  obtain ⟨⟨own, rest⟩, hown, attributes, hattributes, name, hname, h⟩ := h
  split at h
  · rename_i hdistinct
    rw [Option.pure_def, Option.some.injEq] at h
    obtain ⟨hunbound, hbound⟩ := elementName?_bound hname
    have hproper := houter.extend (proper_of_declarations? hwords hown)
    rw [← h]
    refine ⟨hproper, hunbound, hbound, ?_, hdistinct⟩
    intro a ha
    obtain ⟨raw, -, hresolve⟩ := exists_of_mem_mapM hattributes a ha
    obtain ⟨resolved, hresolved, rfl⟩ := Option.map_eq_some_iff.1 hresolve
    exact attributeName?_bound hresolved
  · simp at h

/-! ### All tags -/

/-- Markup makes items with `P` and open elements with `O` of nothing else: the four kinds of items,
and an element while it is open and when it ends. -/
structure Builds (O : OpenElement → Prop) (P : Item → Prop) : Prop where
  text : ∀ s, P (.text s)
  comment : ∀ s, P (.comment s)
  instruction : ∀ target value, (Markup.instruction target value).Named →
    P (.instruction target value)
  /-- An element that a tag begins inside open elements and behind items. -/
  opening : ∀ {opened items tag as isEmpty e}, (∀ e ∈ opened, O e) → (∀ i ∈ items, P i) →
    (Markup.opening tag as isEmpty).Named → openElement? (innerScope opened) items tag as = some e →
    O e
  /-- The items before an open element. -/
  earlier : ∀ {e}, O e → ∀ i ∈ e.earlier, P i
  /-- An element that ends. -/
  finish : ∀ {e content}, O e → (∀ i ∈ content, P i) → P (e.finish content)

namespace Builds

variable {O : OpenElement → Prop} {P : Item → Prop}

theorem of_addText (h : Builds O P) {items : List Item} (hitems : ∀ i ∈ items, P i) (s : String) :
    ∀ i ∈ addText s items, P i := by
  unfold addText
  split
  · exact List.forall_mem_cons.2 ⟨h.text _, (List.forall_mem_cons.1 hitems).2⟩
  · split
    · exact hitems
    · exact List.forall_mem_cons.2 ⟨h.text s, hitems⟩

/-- Markup keeps what is so built and builds what it adds. -/
theorem of_itemsOf? (hb : Builds O P) {opened : List OpenElement} {items content : List Item}
    {ms : List Markup} (h : itemsOf? opened items ms = some content)
    (hms : ∀ m ∈ ms, m.Named) (hopened : ∀ e ∈ opened, O e) (hitems : ∀ i ∈ items, P i) :
    ∀ i ∈ content, P i := by
  induction ms generalizing opened items with
  | nil =>
    cases opened with
    | nil =>
      rw [itemsOf?, Option.some.injEq] at h
      exact fun i hi => hitems i (List.mem_reverse.1 (h ▸ hi))
    | cons e opened => simp [itemsOf?] at h
  | cons m ms ih =>
    obtain ⟨hm, hrest⟩ := List.forall_mem_cons.1 hms
    cases m with
    | opening tag as isEmpty =>
      simp only [itemsOf?, Option.bind_eq_bind, Option.bind_eq_some_iff] at h
      obtain ⟨e, he, h⟩ := h
      have hopen := hb.opening hopened hitems hm he
      -- an empty element is finished at once, any other stays open
      split at h
      · exact ih h hrest hopened
          (List.forall_mem_cons.2 ⟨hb.finish hopen (List.forall_mem_nil _), hitems⟩)
      · exact ih h hrest (List.forall_mem_cons.2 ⟨hopen, hopened⟩) (List.forall_mem_nil _)
    | closing tag =>
      cases opened with
      | nil => simp [itemsOf?] at h
      | cons e opened =>
        obtain ⟨he, hopened⟩ := List.forall_mem_cons.1 hopened
        rw [itemsOf?] at h
        split at h
        · exact ih h hrest hopened (List.forall_mem_cons.2 ⟨hb.finish he hitems, hb.earlier he⟩)
        · simp at h
    | comment s =>
      rw [itemsOf?] at h
      exact ih h hrest hopened (List.forall_mem_cons.2 ⟨hb.comment s, hitems⟩)
    | instruction target value =>
      rw [itemsOf?] at h
      exact ih h hrest hopened (List.forall_mem_cons.2 ⟨hb.instruction target value hm, hitems⟩)
    | text s isBlank =>
      cases opened with
      | nil =>
        rw [itemsOf?] at h
        split at h
        · exact ih h hrest hopened hitems
        · simp at h
      | cons e opened =>
        rw [itemsOf?] at h
        exact ih h hrest hopened (hb.of_addText hitems s)

/-- So are the items of a document that is read. -/
theorem of_read? (hb : Builds O P) {s : String} {d : Document} (h : Document.read? s = some d) :
    ∀ i ∈ d.content, P i := by
  simp only [Document.read?, Document.ofMarkup?, Option.bind_eq_bind, Option.bind_eq_some_iff] at h
  obtain ⟨cs, -, ms, hms, content, hcontent, h⟩ := h
  split at h
  · rw [Option.pure_def, Option.some.injEq] at h
    rw [← h]
    exact hb.of_itemsOf? hcontent (Markup.named_of_all? hms) nofun nofun
  · simp at h

end Builds

/-- In an item all names come from the bindings in scope. -/
inductive Item.Sound : Item → Prop
  | element {name scope attributes content} (resolved : Resolved name scope attributes)
    (inside : ∀ i ∈ content, Item.Sound i) : Item.Sound (.element name scope attributes content)
  | text {s} : Item.Sound (.text s)
  | comment {s} : Item.Sound (.comment s)
  | instruction {target value} : Item.Sound (.instruction target value)

/-- So they do in an open element and in the items before it. -/
structure OpenElement.Sound (e : OpenElement) : Prop where
  resolved : Resolved e.name e.scope e.attributes
  earlier : ∀ i ∈ e.earlier, i.Sound

theorem OpenElement.Sound.finish {e : OpenElement} (h : e.Sound) {content : List Item}
    (hcontent : ∀ i ∈ content, i.Sound) : (e.finish content).Sound :=
  .element h.resolved fun i hi => hcontent i (List.mem_reverse.1 hi)

theorem proper_innerScope {opened : List OpenElement} (h : ∀ e ∈ opened, e.Sound) :
    (innerScope opened).Proper := by
  cases opened with
  | nil => exact Scope.proper_nil
  | cons e opened => exact (h e List.mem_cons_self).resolved.proper

/-- Markup gives names in the same way to all that it adds. -/
theorem builds_sound : Builds OpenElement.Sound Item.Sound where
  text _ := .text
  comment _ := .comment
  instruction _ _ _ := .instruction
  opening hopened hitems hnamed he :=
    ⟨resolved_of_openElement? (proper_innerScope hopened) hnamed.2 he,
      earlier_of_openElement? he ▸ hitems⟩
  earlier he := he.earlier
  finish he hcontent := he.finish hcontent

/-! ### All nodes -/

namespace Document

/-- In a document that is read all names come from the bindings in scope. -/
theorem sound_of_read? {s : String} {d : Document} (h : read? s = some d) :
    ∀ i ∈ d.content, i.Sound :=
  builds_sound.of_read? h

/-- So do those of every node: what is found at a location is an item of the document. -/
theorem sound_at? {d : Document} (h : ∀ i ∈ d.content, i.Sound) :
    ∀ {n : Location} {r : Referent}, d.at? n = some r → ∀ i ∈ r.content, i.Sound := by
  intro n
  induction n with
  | nil =>
    intro r hr
    exact Option.some.inj hr ▸ h
  | cons link up ih =>
    intro r hr
    obtain ⟨r', hr', hfollow⟩ := Option.bind_eq_some_iff.1 hr
    cases link with
    | namespaceNode i =>
      obtain ⟨b, -, rfl⟩ := Option.map_eq_some_iff.1 hfollow
      exact nofun
    | «attribute» i =>
      obtain ⟨a, -, rfl⟩ := Option.map_eq_some_iff.1 hfollow
      exact nofun
    | child i =>
      obtain ⟨item, hitem, rfl⟩ := Option.map_eq_some_iff.1 hfollow
      have hmem := (List.mem_filter.1 (List.mem_of_getElem? hitem)).1
      cases ih hr' item hmem with
      | element resolved inside => exact inside
      | text => exact nofun
      | comment => exact nofun
      | instruction => exact nofun

/-- The names of an element and of its attributes come from the bindings in scope there. -/
theorem resolved_at? {d : Document} (h : ∀ i ∈ d.content, i.Sound) {n : Location}
    {name : ExpandedName} {scope : Scope} {attributes : List Attribute} {content : List Item}
    (hn : d.at? n = some (.item (.element name scope attributes content))) :
    Resolved name scope attributes := by
  cases n with
  | nil => simp [at?] at hn
  | cons link up =>
    obtain ⟨r, hr, hfollow⟩ := Option.bind_eq_some_iff.1 hn
    cases link with
    | namespaceNode i => simp [Referent.follow?] at hfollow
    | «attribute» i => simp [Referent.follow?] at hfollow
    | child i =>
      obtain ⟨item, hitem, heq⟩ := Option.map_eq_some_iff.1 hfollow
      have hmem := (List.mem_filter.1 (List.mem_of_getElem? hitem)).1
      have hsound := sound_at? h hr item hmem
      rw [Referent.item.injEq] at heq
      rw [heq] at hsound
      cases hsound with
      | element resolved inside => exact resolved

end Document
end XPath.Xml
