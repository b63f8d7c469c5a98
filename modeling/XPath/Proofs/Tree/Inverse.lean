import XPath.Proofs.Tree.Direction

/-!
# Axes and their inverses

A walk down an axis and the walk back up its inverse share no code: one recurs through children, the
other follows parents.  Both are read here as relations between two nodes, and each relation turned
around is that of the inverse axis.

* `Linked.mem_children_iff` and its kin: links down against the link up;
* `Lawful.mem_place`: which siblings are the earlier ones;
* `Tree.Meets`: one node is found along an axis from another;
* `meets_child`, `meets_ancestor` and their kin: what that takes, axis by axis;
* `Lawful.meets_sibling`, `Lawful.meets_beside`: to the left and right it is document order that
  decides;
* `along_inverse`: every axis against its inverse.
-/

namespace XPath
namespace Tree

variable {N : Type} {T : Tree N} {root m n p : N}

/-! ### Links and their inverses -/

/-- Children are what names a node as its parent and is no attribute and no namespace binding. -/
theorem Linked.mem_children_iff (h : T.Linked root) (hm : T.Reaches root m)
    (hn : T.Reaches root n) : m ∈ T.children n ↔ T.parent m = some n ∧ T.isOwned m = false := by
  constructor
  · exact fun hc => ⟨h.parent_child n hn m hc, h.child_not_owned n hn m hc⟩
  · rintro ⟨hp, ho⟩
    exact (h.mem_children_of_parent hm ho hp).2.2

/-- What belongs to an element is listed there among its attributes or its namespace bindings. -/
theorem Linked.mem_owner (h : T.Linked root) (hm : T.Reaches root m) (ho : T.isOwned m)
    (hp : T.parent m = some n) : m ∈ T.attributes n ∨ m ∈ T.namespaces n := by
  obtain ⟨p, -, -, hparent, hlisted⟩ := h.owner_cases hm ho
  rw [hp, Option.some.injEq] at hparent
  exact hparent ▸ hlisted

theorem Linked.mem_attributes_iff (h : T.Linked root) (hm : T.Reaches root m)
    (hn : T.Reaches root n) :
    m ∈ T.attributes n ↔ T.parent m = some n ∧ T.kind m = .attribute := by
  constructor
  · exact fun ha => ⟨h.parent_attribute n hn m ha, h.kind_attribute n hn m ha⟩
  · rintro ⟨hp, hk⟩
    have ho : T.isOwned m := by
      rw [isOwned, hk]
      rfl
    refine (h.mem_owner hm ho hp).resolve_right fun ha => ?_
    simp [h.kind_namespace n hn m ha] at hk

theorem Linked.mem_namespaces_iff (h : T.Linked root) (hm : T.Reaches root m)
    (hn : T.Reaches root n) :
    m ∈ T.namespaces n ↔ T.parent m = some n ∧ T.kind m = .namespaceNode := by
  constructor
  · exact fun ha => ⟨h.parent_namespace n hn m ha, h.kind_namespace n hn m ha⟩
  · rintro ⟨hp, hk⟩
    have ho : T.isOwned m := by
      rw [isOwned, hk]
      rfl
    refine (h.mem_owner hm ho hp).resolve_left fun ha => ?_
    simp [h.kind_attribute n hn m ha] at hk

/-- What lies above an attribute or a namespace binding is its owner and what lies above that. -/
theorem ancestor_iff_of_parent (hp : T.parent m = some p) :
    T.Ancestor n m ↔ n = p ∨ T.Ancestor n p := by
  rw [← mem_above, ← mem_above, above_of_parent T hp]
  exact List.mem_cons

/-! ### Siblings in document order -/

/-- Of the children on either side of a node, those before it in document order are the earlier ones
and those after it the later ones. -/
theorem Lawful.mem_place (h : T.Lawful root) (hn : T.Reaches root n) (hp : T.Reaches root p)
    {earlier later : List N} (hsplit : T.children p = earlier ++ n :: later) :
    (m ∈ later ↔ m ∈ T.children p ∧ T.before n m) ∧
      (m ∈ earlier ↔ m ∈ T.children p ∧ T.before m n) := by
  have hordered := h.ordered.sublist ((T.children_sublist_walk p).trans (h.walk_sublist hp))
  rw [hsplit, List.pairwise_append, List.pairwise_cons] at hordered
  obtain ⟨-, ⟨hlater, -⟩, hearlier⟩ := hordered
  have hself := h.irreflexive n hn
  have hmem : m ∈ T.children p ↔ m ∈ earlier ∨ m = n ∨ m ∈ later := by
    rw [hsplit, List.mem_append, List.mem_cons]
  constructor
  · constructor
    · exact fun hm => ⟨hmem.2 (.inr (.inr hm)), (hlater m hm).1⟩
    · rintro ⟨hm, hbefore⟩
      rcases hmem.1 hm with hm | rfl | hm
      · simp [(hearlier m hm n List.mem_cons_self).2] at hbefore
      · simp [hself] at hbefore
      · exact hm
  · constructor
    · exact fun hm => ⟨hmem.2 (.inl hm), (hearlier m hm n List.mem_cons_self).1⟩
    · rintro ⟨hm, hbefore⟩
      rcases hmem.1 hm with hm | rfl | hm
      · exact hm
      · simp [hself] at hbefore
      · simp [(hlater m hm).2] at hbefore

/-! ### Axes as relations -/

variable [DecidableEq N]

/-- The walk along an axis from the first node succeeds and finds the second. -/
def Meets (T : Tree N) (axis : Axis) (n m : N) : Prop :=
  ∃ ns, T.along (fun _ => true) axis n = .ok ns ∧ m ∈ ns

theorem meets_of_along {axis : Axis} {ns : List N}
    (h : T.along (fun _ => true) axis n = .ok (ns.filter fun _ => true)) :
    T.Meets axis n m ↔ m ∈ ns := by
  rw [filter_always] at h
  constructor
  · rintro ⟨ns', hns', hm⟩
    rw [h, Except.ok.injEq] at hns'
    exact hns' ▸ hm
  · exact fun hm => ⟨ns, h, hm⟩

/-! ### Down and up -/

theorem meets_child : T.Meets .child n m ↔ m ∈ T.children n :=
  meets_of_along (along_child _ n)

theorem meets_parent : T.Meets .parent n m ↔ T.parent n = some m := by
  rw [meets_of_along (along_parent _ n)]
  exact Option.mem_toList

theorem meets_ancestor : T.Meets .ancestor n m ↔ T.Ancestor m n := by
  rw [meets_of_along (along_ancestor _ n)]
  exact mem_above

theorem Linked.meets_attribute (h : T.Linked root) (hn : T.Reaches root n) :
    T.Meets .attribute n m ↔ m ∈ T.attributes n := by
  rw [meets_of_along (along_attribute _ n)]
  cases he : T.isElement n with
  | true => simp
  | false => simp [h.attributes_other n hn he]

theorem Linked.meets_namespace (h : T.Linked root) (hn : T.Reaches root n) :
    T.Meets .namespaceNode n m ↔ m ∈ T.namespaces n := by
  rw [meets_of_along (along_namespace _ n)]
  cases he : T.isElement n with
  | true => simp
  | false => simp [h.namespaces_other n hn he]

/-- The descendants of a node are the nodes that have it above, attributes and namespace bindings
apart. -/
theorem Linked.meets_descendant (h : T.Linked root) (hm : T.Reaches root m)
    (hn : T.Reaches root n) :
    T.Meets .descendant n m ↔ T.Ancestor n m ∧ T.isOwned m = false := by
  rw [meets_of_along (along_descendant _ n)]
  constructor
  · intro hbelow
    refine ⟨h.ancestor_of_mem_below hn hbelow, ?_⟩
    have hcontent : m ∈ T.content ((T.children n).flatMap T.walk) := by
      rwa [h.content_walks hn fun _ hc => hc, ← below_eq]
    exact ((mem_content T).1 hcontent).2
  · rintro ⟨hanc, ho⟩
    exact h.mem_below_of_ancestor hm ho hanc

theorem Linked.meets_descendantOrSelf (h : T.Linked root) (hm : T.Reaches root m)
    (hn : T.Reaches root n) (ho : T.isOwned m = false) :
    T.Meets .descendantOrSelf n m ↔ n = m ∨ T.Ancestor n m := by
  have hbelow : m ∈ T.below n ↔ T.Ancestor n m := by
    rw [← meets_of_along (along_descendant _ n), h.meets_descendant hm hn]
    exact and_iff_left ho
  rw [meets_of_along (along_descendantOrSelf _ n), subtree, List.mem_cons, hbelow, eq_comm]

/-! ### Sideways -/

/-- The siblings on either side are the children of the same parent, by document order. -/
theorem Lawful.meets_sibling (h : T.Lawful root) (hn : T.Reaches root n) :
    (T.Meets .followingSibling n m ↔ ∃ p, T.Reaches root p ∧ n ∈ T.children p ∧
      m ∈ T.children p ∧ T.before n m) ∧
    (T.Meets .precedingSibling n m ↔ ∃ p, T.Reaches root p ∧ n ∈ T.children p ∧
      m ∈ T.children p ∧ T.before m n) := by
  obtain ⟨s, hs, hplace⟩ := h.place_cases hn
  rw [meets_of_along (along_followingSibling _ hs), meets_of_along (along_precedingSibling _ hs)]
  cases s with
  | none =>
    -- without a place the node is no child of any node that can be reached
    have halone : ∀ p, T.Reaches root p → n ∉ T.children p := by
      intro p hp hc
      obtain ⟨s, hs', -⟩ := h.place_child hp hc
      simp [hs] at hs'
    refine ⟨iff_of_false List.not_mem_nil ?_, iff_of_false List.not_mem_nil ?_⟩
    · exact fun ⟨p, hp, hc, _⟩ => halone p hp hc
    · exact fun ⟨p, hp, hc, _⟩ => halone p hp hc
  | some s =>
    obtain ⟨hp, -, hsplit⟩ := hplace s rfl
    have hc : n ∈ T.children s.parent := by simp [hsplit]
    -- any parent of the node is that of its place
    have hunique : ∀ q, T.Reaches root q → n ∈ T.children q → q = s.parent := by
      intro q hq hcq
      have hparent := h.parent_child q hq n hcq
      rw [h.parent_child _ hp n hc, Option.some.injEq] at hparent
      exact hparent.symm
    obtain ⟨hlater, hearlier⟩ := h.mem_place (m := m) hn hp hsplit
    constructor
    · show m ∈ s.later ↔ _
      rw [hlater]
      constructor
      · exact fun ⟨hm, hbefore⟩ => ⟨s.parent, hp, hc, hm, hbefore⟩
      · rintro ⟨q, hq, hcq, hm, hbefore⟩
        exact hunique q hq hcq ▸ ⟨hm, hbefore⟩
    · show m ∈ s.earlier.reverse ↔ _
      rw [List.mem_reverse, hearlier]
      constructor
      · exact fun ⟨hm, hbefore⟩ => ⟨s.parent, hp, hc, hm, hbefore⟩
      · rintro ⟨q, hq, hcq, hm, hbefore⟩
        exact hunique q hq hcq ▸ ⟨hm, hbefore⟩

/-- What follows or precedes a node does so in document order and lies neither below nor above it.
-/
theorem Lawful.meets_beside (h : T.Lawful root) (hm : T.Reaches root m) (hn : T.Reaches root n)
    (ho : T.isOwned m = false) :
    (T.Meets .following n m ↔ T.before n m ∧ ¬T.Ancestor n m) ∧
    (T.Meets .preceding n m ↔ T.before m n ∧ ¬T.Ancestor m n) := by
  obtain ⟨pre, own, post, prec, foll, hcut, hfollowing, hpreceding⟩ := h.split hn
  have hcontent : m ∈ T.content (T.walk root) := h.mem_content_walk.2 ⟨hm, ho⟩
  rw [← filter_always foll] at hfollowing
  rw [← filter_always prec] at hpreceding
  rw [meets_of_along hfollowing, meets_of_along hpreceding, hcut.mem_following h hn,
    hcut.mem_preceding h hn]
  exact ⟨and_iff_right hcontent, and_iff_right hcontent⟩

/-! ### Each axis against its inverse -/

/-- In a lawful tree every axis finds its nodes from every node, and what one axis finds from `n` is
what finds `n` along the other.  Children and descendants are the nodes with the node as parent or
ancestor that are no attributes and no namespace bindings; attributes and namespace bindings are
those with it as parent that are; and above these lies what has their owner below it. -/
theorem along_inverse (h : T.Lawful root) :
    (∀ axis n, T.Reaches root n → ∃ ns, T.along (fun _ => true) axis n = .ok ns) ∧
    ∀ m n, T.Reaches root m → T.Reaches root n →
      (T.Meets .child n m ↔ T.Meets .parent m n ∧ T.isOwned m = false) ∧
      (T.Meets .attribute n m ↔ T.Meets .parent m n ∧ T.kind m = .attribute) ∧
      (T.Meets .namespaceNode n m ↔ T.Meets .parent m n ∧ T.kind m = .namespaceNode) ∧
      (T.Meets .descendant n m ↔ T.Meets .ancestor m n ∧ T.isOwned m = false) ∧
      (T.isOwned m → ∃ p, T.parent m = some p ∧
        (T.Meets .ancestor m n ↔ T.Meets .descendantOrSelf n p)) ∧
      (T.Meets .followingSibling n m ↔ T.Meets .precedingSibling m n) ∧
      (T.isOwned m = false → T.isOwned n = false →
        (T.Meets .following n m ↔ T.Meets .preceding m n)) := by
  constructor
  · intro axis n hn
    obtain ⟨ns, hns, -⟩ := h.along_eq hn axis
    exact ⟨_, hns _⟩
  intro m n hm hn
  refine ⟨?_, ?_, ?_, ?_, ?_, ?_, ?_⟩
  · rw [meets_child, meets_parent]
    exact h.mem_children_iff hm hn
  · rw [h.meets_attribute hn, meets_parent]
    exact h.mem_attributes_iff hm hn
  · rw [h.meets_namespace hn, meets_parent]
    exact h.mem_namespaces_iff hm hn
  · rw [meets_ancestor]
    exact h.meets_descendant hm hn
  · intro ho
    obtain ⟨p, hp, hop, hparent, -⟩ := h.owner_cases hm ho
    refine ⟨p, hparent, ?_⟩
    rw [meets_ancestor, h.meets_descendantOrSelf hp hn hop]
    exact ancestor_iff_of_parent hparent
  · rw [(h.meets_sibling hn).1, (h.meets_sibling hm).2]
    constructor
    · exact fun ⟨p, hp, hn, hm, hbefore⟩ => ⟨p, hp, hm, hn, hbefore⟩
    · exact fun ⟨p, hp, hm, hn, hbefore⟩ => ⟨p, hp, hn, hm, hbefore⟩
  · intro hom hon
    rw [(h.meets_beside hm hn hom).1, (h.meets_beside hn hm hon).2]

/-- In the sample the inner element follows the first paragraph since the paragraph precedes it, and
the root lies above an attribute of the paragraph since the paragraph lies below the root. -/
theorem along_inverse_sample :
    Table.sample.tree.Lawful 0 ∧ Table.sample.tree.Meets .preceding 8 1 ∧
      Table.sample.tree.Meets .following 1 8 ∧ Table.sample.tree.Meets .descendantOrSelf 0 1 ∧
      Table.sample.tree.Meets .ancestor 4 0 := by
  have hpara : Table.sample.tree.Reaches 0 1 := .child .root (by decide)
  have hid : Table.sample.tree.Reaches 0 4 := .attributeOf hpara (by decide)
  have hspan : Table.sample.tree.Reaches 0 8 := by
    have hdiv : Table.sample.tree.Reaches 0 7 := .child .root (by decide)
    exact .child hdiv (by decide)
  have hpreceding : Table.sample.tree.Meets .preceding 8 1 :=
    ⟨[6, 5, 1], by decide +kernel, by decide⟩
  have hdescendant : Table.sample.tree.Meets .descendantOrSelf 0 1 :=
    ⟨[0, 1, 5, 6, 7, 8, 9, 10, 11, 12], by decide +kernel, by decide⟩
  obtain ⟨-, hinverse⟩ := along_inverse lawful_sample
  obtain ⟨-, -, -, -, -, -, hbeside⟩ := hinverse 8 1 hspan hpara
  obtain ⟨-, -, -, -, howner, -⟩ := hinverse 4 0 hid .root
  obtain ⟨p, hp, habove⟩ := howner (by decide)
  have hpara' : p = 1 := (Option.some.inj hp).symm
  subst hpara'
  exact ⟨lawful_sample, hpreceding, (hbeside (by decide) (by decide)).2 hpreceding, hdescendant,
    habove.2 hdescendant⟩

end Tree
end XPath
