import XPath.Proofs.Outcome
import XPath.Proofs.Tree.Order
import XPath.Proofs.Tree.Partition

/-!
# The direction of an axis

What is met along an axis lies on the walk through the whole tree, in the same order along a forward
axis and in the opposite one along a reverse axis.

* `Tree.Descending`: a list against document order, each node once;
* `Linked.cut_above`, `Linked.cut_climbs`: where the walk meets a node, and what it met before;
* `Linked.along_sublist`: what is met along an axis is a part of the walk, or of its reverse;
* `Linked.along_eq`: so no axis fails, and what it finds can be reached again;
* `along_directed`: every axis runs in its own direction.
-/

namespace XPath
namespace Tree

variable {N : Type} {T : Tree N} {root : N}

/-- Each node of the list comes after all those behind it. -/
def Descending (T : Tree N) (ns : List N) : Prop :=
  ns.Pairwise fun a b => T.before b a

instance (T : Tree N) (ns : List N) [DecidableEq N] : Decidable (T.Descending ns) :=
  inferInstanceAs (Decidable (ns.Pairwise fun a b => T.before b a))

/-! ### Parts of the walk from a node -/

theorem sublist_walks (T : Tree N) (ns : List N) : ns.Sublist (ns.flatMap T.walk) := by
  induction ns with
  | nil => exact .slnil
  | cons n ns ih =>
    rw [List.flatMap_cons, walk_eq, List.cons_append]
    exact (ih.trans (List.sublist_append_right _ _)).cons_cons n

theorem walks_sublist (T : Tree N) (n : N) :
    ((T.children n).flatMap T.walk).Sublist
      (T.namespaces n ++ (T.attributes n ++ (T.children n).flatMap T.walk)) :=
  (List.sublist_append_right _ _).trans (List.sublist_append_right _ _)

theorem children_sublist_walk (T : Tree N) (n : N) : (T.children n).Sublist (T.walk n) := by
  rw [walk_eq]
  exact .cons n ((T.sublist_walks _).trans (T.walks_sublist n))

theorem attributes_sublist_walk (T : Tree N) (n : N) : (T.attributes n).Sublist (T.walk n) := by
  rw [walk_eq]
  exact .cons n ((List.sublist_append_left _ _).trans (List.sublist_append_right _ _))

theorem namespaces_sublist_walk (T : Tree N) (n : N) : (T.namespaces n).Sublist (T.walk n) := by
  rw [walk_eq]
  exact .cons n (List.sublist_append_left _ _)

theorem Linked.subtrees_sublist_walks (h : T.Linked root) {p : N} (hp : T.Reaches root p)
    (ns : List N) (hns : ∀ m ∈ ns, m ∈ T.children p) :
    (ns.flatMap T.subtree).Sublist (ns.flatMap T.walk) := by
  rw [← h.content_walks hp hns]
  exact List.filter_sublist

theorem Linked.subtree_sublist_walk (h : T.Linked root) {n : N} (hn : T.Reaches root n) :
    (T.subtree n).Sublist (T.walk n) := by
  have hbelow := h.subtrees_sublist_walks hn _ fun _ hm => hm
  rw [walk_eq, subtree, below_eq]
  exact .cons_cons n (hbelow.trans (T.walks_sublist n))

theorem Linked.below_sublist_walk (h : T.Linked root) {n : N} (hn : T.Reaches root n) :
    (T.below n).Sublist (T.walk n) :=
  (List.sublist_cons_self _ _).trans (h.subtree_sublist_walk hn)

/-! ### Where the walk meets a node -/

/-- Before the walk meets a node it has met all nodes above it, the nearest last. -/
theorem Linked.cut_above (h : T.Linked root) {n : N} (hn : T.Reaches root n) :
    ∃ pre post, T.walk root = pre ++ (T.walk n ++ post) ∧ (T.above n).reverse.Sublist pre := by
  have hstep : ∀ p m, T.Reaches root p → m ∈ T.listed p →
      (∃ pre post, T.walk root = pre ++ (T.walk p ++ post) ∧ (T.above p).reverse.Sublist pre) →
      ∃ pre post, T.walk root = pre ++ (T.walk m ++ post) ∧ (T.above m).reverse.Sublist pre := by
    rintro p m hp hm ⟨pre, post, hwalk, habove⟩
    obtain ⟨x, y, hxy⟩ := List.append_of_mem hm
    refine ⟨pre ++ p :: x.flatMap T.walk, y.flatMap T.walk ++ post, ?_, ?_⟩
    · rw [hwalk, h.walk_eq_listed hp, hxy]
      simp
    · rw [T.above_of_parent (h.parent_listed hp hm), List.reverse_cons]
      exact habove.append (List.singleton_sublist.2 List.mem_cons_self)
  induction hn with
  | root => exact ⟨[], [], by simp, by simp [T.above_of_root h.parent_root]⟩
  | child hp hc ih => exact hstep _ _ hp (mem_listed.2 (.inr (.inr hc))) ih
  | attributeOf hp ha ih => exact hstep _ _ hp (mem_listed.2 (.inr (.inl ha))) ih
  | namespaceOf hp ha ih => exact hstep _ _ hp (mem_listed.2 (.inl ha)) ih

theorem Linked.walk_sublist (h : T.Linked root) {n : N} (hn : T.Reaches root n) :
    (T.walk n).Sublist (T.walk root) := by
  obtain ⟨pre, post, hwalk, -⟩ := h.cut_above hn
  rw [hwalk]
  exact (List.sublist_append_left _ _).trans (List.sublist_append_right _ _)

variable [DecidableEq N]

/-- The walk meets the subtrees to the left of a climb before its start and those to the right
behind everything below it. -/
theorem Linked.cut_climbs (h : T.Linked root) {n : N} (hn : T.Reaches root n)
    (ho : T.isOwned n = false) : ∀ ss, T.Climbs n ss →
      ∃ pre post, T.walk root = pre ++ (T.walk n ++ post) ∧ (T.toLeft ss).reverse.Sublist pre ∧
        (T.toRight ss).Sublist post := by
  refine h.content_induction (motive := fun n => ∀ ss, T.Climbs n ss →
    ∃ pre post, T.walk root = pre ++ (T.walk n ++ post) ∧ (T.toLeft ss).reverse.Sublist pre ∧
      (T.toRight ss).Sublist post) ?_ ?_ hn ho
  · intro ss hss
    cases hss with
    | stop => exact ⟨[], [], by simp, .slnil, .slnil⟩
    | climb hs up => simp [h.place_root] at hs
  -- the siblings of a child are walked on both sides of it, inside its parent
  · intro p c hp _ hc ih ss hss
    obtain ⟨s, hs, rfl, hsplit⟩ := h.place_child hp hc
    cases hss with
    | stop hs' => simp [hs] at hs'
    | climb hs' up =>
      rw [hs, Except.ok.injEq, Option.some.injEq] at hs'
      subst hs'
      obtain ⟨pre, post, hwalk, hleft, hright⟩ := ih _ up
      have hearlier := h.subtrees_sublist_walks hp s.earlier fun m hm => by simp [hsplit, hm]
      have hlater := h.subtrees_sublist_walks hp s.later fun m hm => by simp [hsplit, hm]
      refine ⟨pre ++ (s.parent :: (T.namespaces s.parent ++ (T.attributes s.parent ++
        s.earlier.flatMap T.walk))), s.later.flatMap T.walk ++ post, ?_, ?_, ?_⟩
      · rw [hwalk, walk_eq T s.parent, hsplit]
        simp
      · rw [toLeft_cons, List.reverse_append, List.reverse_reverse]
        refine hleft.append (.cons _ ?_)
        exact hearlier.trans ((List.sublist_append_right _ _).trans (List.sublist_append_right _ _))
      · rw [toRight_cons]
        exact hlater.append hright

/-! ### Along every axis -/

/-- What stands before a node among its siblings, the node and what stands behind it. -/
theorem Linked.siblings_sublist (h : T.Linked root) {n : N} (hn : T.Reaches root n) {s : Place N}
    (hs : T.place n = .ok (some s)) : (s.earlier ++ n :: s.later).Sublist (T.walk root) := by
  obtain ⟨s', hs', hcases⟩ := h.place_cases hn
  rw [hs, Except.ok.injEq] at hs'
  obtain ⟨hp, -, hsplit⟩ := hcases s (hs' ▸ rfl)
  rw [← hsplit]
  exact (T.children_sublist_walk _).trans (h.walk_sublist hp)

/-- What follows is on the right of the climb, from an owned node together with what is below its
owner. -/
theorem Linked.following_sublist (h : T.Linked root) {n : N} (hn : T.Reaches root n) :
    ∃ ns : List N, (∀ accept, T.along accept .following n = .ok (ns.filter accept)) ∧
      ns.Sublist (T.walk root) := by
  cases ho : T.isOwned n with
  | false =>
    obtain ⟨ss, hss⟩ := h.climbs hn ho
    obtain ⟨pre, post, hcut, -, hright⟩ := h.cut_climbs hn ho ss hss
    refine ⟨_, fun accept => along_following accept ho hss, ?_⟩
    rw [hcut]
    exact hright.trans ((List.sublist_append_right _ _).trans (List.sublist_append_right _ _))
  | true =>
    obtain ⟨p, hp, hop, hparent, -⟩ := h.owner_cases hn ho
    obtain ⟨ss, hss⟩ := h.climbs hp hop
    obtain ⟨pre, post, hcut, -, hright⟩ := h.cut_climbs hp hop ss hss
    refine ⟨_, fun accept => along_following_owned accept ho hparent hss, ?_⟩
    rw [hcut]
    exact ((h.below_sublist_walk hp).append hright).trans (List.sublist_append_right _ _)

/-- What precedes is on the left of the climb, met in the opposite order. -/
theorem Linked.preceding_sublist (h : T.Linked root) {n : N} (hn : T.Reaches root n) :
    ∃ ns : List N, (∀ accept, T.along accept .preceding n = .ok (ns.filter accept)) ∧
      ns.reverse.Sublist (T.walk root) := by
  cases ho : T.isOwned n with
  | false =>
    obtain ⟨ss, hss⟩ := h.climbs hn ho
    obtain ⟨pre, post, hcut, hleft, -⟩ := h.cut_climbs hn ho ss hss
    refine ⟨_, fun accept => along_preceding accept ho hss, ?_⟩
    rw [hcut]
    exact hleft.trans (List.sublist_append_left _ _)
  | true =>
    obtain ⟨p, hp, hop, hparent, -⟩ := h.owner_cases hn ho
    obtain ⟨ss, hss⟩ := h.climbs hp hop
    obtain ⟨pre, post, hcut, hleft, -⟩ := h.cut_climbs hp hop ss hss
    refine ⟨_, fun accept => along_preceding_owned accept ho hparent hss, ?_⟩
    rw [hcut]
    exact hleft.trans (List.sublist_append_left _ _)

/-- What is met along an axis is a part of the walk through the whole tree, or of its reverse. -/
theorem Linked.along_sublist (h : T.Linked root) {n : N} (hn : T.Reaches root n) (axis : Axis) :
    ∃ ns : List N, (∀ accept, T.along accept axis n = .ok (ns.filter accept)) ∧
      (if axis.isReverse then ns.reverse else ns).Sublist (T.walk root) := by
  obtain ⟨s, hs, -⟩ := h.place_cases hn
  have hwalk := h.walk_sublist hn
  have hsingle : ∀ m, T.Reaches root m → [m].Sublist (T.walk root) :=
    fun m hm => List.singleton_sublist.2 (h.mem_walk.2 hm)
  obtain ⟨pre, post, hcut, habove⟩ := h.cut_above hn
  cases axis with
  | self => exact ⟨_, fun accept => along_self accept n, hsingle n hn⟩
  | child => exact ⟨_, fun accept => along_child accept n, (T.children_sublist_walk n).trans hwalk⟩
  | parent =>
    refine ⟨_, fun accept => along_parent accept n, ?_⟩
    cases hp : T.parent n with
    | none => exact List.nil_sublist _
    | some p => exact hsingle p (h.reaches_parent hn hp)
  | ancestor =>
    refine ⟨_, fun accept => along_ancestor accept n, ?_⟩
    rw [hcut]
    exact habove.trans (List.sublist_append_left _ _)
  | ancestorOrSelf =>
    refine ⟨_, fun accept => along_ancestorOrSelf accept n, ?_⟩
    have hself : [n].Sublist (T.walk n ++ post) := by
      rw [walk_eq]
      exact List.singleton_sublist.2 List.mem_cons_self
    simp only [Axis.isReverse, if_true, List.reverse_cons]
    rw [hcut]
    exact habove.append hself
  | descendant =>
    exact ⟨_, fun accept => along_descendant accept n, (h.below_sublist_walk hn).trans hwalk⟩
  | descendantOrSelf =>
    exact ⟨_, fun accept => along_descendantOrSelf accept n,
      (h.subtree_sublist_walk hn).trans hwalk⟩
  | «attribute» =>
    refine ⟨_, fun accept => along_attribute accept n, ?_⟩
    simp only [Axis.isReverse, Bool.false_eq_true, if_false]
    split
    · exact (T.attributes_sublist_walk n).trans hwalk
    · exact List.nil_sublist _
  | namespaceNode =>
    refine ⟨_, fun accept => along_namespace accept n, ?_⟩
    simp only [Axis.isReverse, Bool.false_eq_true, if_false]
    split
    · exact (T.namespaces_sublist_walk n).trans hwalk
    · exact List.nil_sublist _
  | followingSibling =>
    refine ⟨_, fun accept => along_followingSibling accept hs, ?_⟩
    cases s with
    | none => exact List.nil_sublist _
    | some s =>
      have hlater := (List.sublist_append_right _ _).trans (h.siblings_sublist hn hs)
      exact (List.sublist_cons_self _ _).trans hlater
  | precedingSibling =>
    refine ⟨_, fun accept => along_precedingSibling accept hs, ?_⟩
    cases s with
    | none => exact List.nil_sublist _
    | some s =>
      simp only [Axis.isReverse, if_true, Option.elim, List.reverse_reverse]
      exact (List.sublist_append_left _ _).trans (h.siblings_sublist hn hs)
  | following => exact h.following_sublist hn
  | preceding => exact h.preceding_sublist hn

/-- Along every axis there is a list of nodes to choose from, all of which can be reached. -/
theorem Linked.along_eq (h : T.Linked root) {n : N} (hn : T.Reaches root n) (axis : Axis) :
    ∃ ns : List N, (∀ accept, T.along accept axis n = .ok (ns.filter accept)) ∧
      ∀ m ∈ ns, T.Reaches root m := by
  obtain ⟨ns, hns, hsub⟩ := h.along_sublist hn axis
  refine ⟨ns, hns, fun m hm => h.mem_walk.1 (hsub.subset ?_)⟩
  split
  · exact List.mem_reverse.2 hm
  · exact hm

/-- From every node of a lawful tree every axis finds the nodes that are accepted in its own
direction: in document order, or against it along a reverse axis, and each node once. -/
theorem along_directed (h : T.Lawful root) {n : N} (hn : T.Reaches root n) (axis : Axis)
    (accept : N → Bool) :
    ∃ ns, T.along accept axis n = .ok ns ∧
      (if axis.isReverse then T.Descending ns else T.Ascending ns) ∧ ns.Nodup := by
  obtain ⟨ns, hns, hsub⟩ := h.along_sublist hn axis
  refine ⟨ns.filter accept, hns accept, ?_, ?_⟩
  · have hordered := (h.ordered.sublist hsub).imp fun hab => hab.1
    split at hsub
    · rename_i hreverse
      rw [if_pos hreverse] at hordered ⊢
      exact (List.pairwise_reverse.1 hordered).filter accept
    · rename_i hforward
      rw [if_neg hforward] at hordered ⊢
      exact hordered.filter accept
  · have hnodup := h.nodup_walk.sublist hsub
    refine .filter accept ?_
    split at hnodup
    · exact (List.reverse_perm ns).nodup_iff.1 hnodup
    · exact hnodup

/-- The comment behind the first paragraph is found before the text inside it when looking back from
the inner element. -/
theorem along_directed_preceding :
    Table.sample.tree.Lawful 0 ∧ Table.sample.tree.Reaches 0 8 ∧
      ∃ ns, Table.sample.tree.along (fun _ => true) .preceding 8 = .ok ns ∧
        Table.sample.tree.Descending ns ∧ ns = [6, 5, 1] := by
  have hreaches : Table.sample.tree.Reaches 0 8 := by
    have hdiv : Table.sample.tree.Reaches 0 7 := .child .root (by decide)
    exact .child hdiv (by decide)
  obtain ⟨ns, hns, hdirected, -⟩ :=
    along_directed lawful_sample hreaches .preceding fun _ => true
  refine ⟨lawful_sample, hreaches, ns, hns, hdirected, ?_⟩
  have hfound : Table.sample.tree.along (fun _ => true) .preceding 8 = .ok [6, 5, 1] := by
    decide +kernel
  rw [hfound, Except.ok.injEq] at hns
  exact hns.symm

end Tree
end XPath
