import XPath.Proofs.Tree.Walk

/-!
# Trees whose links agree

A tree is only a way to look at nodes.  Here is what its links must satisfy for a walk to make
sense, at the nodes that can be reached from a root.

* `Tree.Reaches`: the nodes that can be reached;
* `Tree.Linked`: their parents, children, attributes and namespace bindings agree;
* `Tree.Ancestor`: one node lies above another;
* `Linked.climbs`: from every such node a climb gets to the root.
-/

namespace XPath
namespace Tree

variable {N : Type} (T : Tree N)

/-! ### The contract -/

/-- The nodes that can be reached from the root through children, attributes and namespace
bindings. -/
inductive Reaches (root : N) : N → Prop
  | root : Reaches root root
  | child {p c} (h : Reaches root p) (hc : c ∈ T.children p) : Reaches root c
  | attributeOf {p a} (h : Reaches root p) (ha : a ∈ T.attributes p) : Reaches root a
  | namespaceOf {p a} (h : Reaches root p) (ha : a ∈ T.namespaces p) : Reaches root a

/-- The first node lies above the second. -/
inductive Ancestor : N → N → Prop
  | parent {p n} (h : T.parent n = some p) : Ancestor p n
  | up {a p n} (h : T.parent n = some p) (ha : Ancestor a p) : Ancestor a n

/-- The links of the nodes that can be reached from the root agree. -/
structure Linked (root : N) : Prop where
  /-- The root has no parent. -/
  parent_root : T.parent root = none
  /-- The root is no attribute and no namespace binding. -/
  root_not_owned : T.isOwned root = false
  /-- The children of a node name it as their parent. -/
  parent_child : ∀ p, T.Reaches root p → ∀ c ∈ T.children p, T.parent c = some p
  /-- They are no attributes and no namespace bindings. -/
  child_not_owned : ∀ p, T.Reaches root p → ∀ c ∈ T.children p, T.isOwned c = false
  /-- The attributes of a node name it as their parent. -/
  parent_attribute : ∀ p, T.Reaches root p → ∀ a ∈ T.attributes p, T.parent a = some p
  /-- They are attributes. -/
  kind_attribute : ∀ p, T.Reaches root p → ∀ a ∈ T.attributes p, T.kind a = .attribute
  /-- The namespace bindings of a node name it as their parent. -/
  parent_namespace : ∀ p, T.Reaches root p → ∀ a ∈ T.namespaces p, T.parent a = some p
  /-- They are namespace bindings. -/
  kind_namespace : ∀ p, T.Reaches root p → ∀ a ∈ T.namespaces p, T.kind a = .namespaceNode
  /-- Attributes and namespace bindings have no children. -/
  children_owned : ∀ n, T.Reaches root n → T.isOwned n → T.children n = []
  /-- Only elements have attributes. -/
  attributes_other : ∀ n, T.Reaches root n → T.isElement n = false → T.attributes n = []
  /-- Only elements have namespace bindings. -/
  namespaces_other : ∀ n, T.Reaches root n → T.isElement n = false → T.namespaces n = []

variable {T} {root : N}

namespace Linked

/-- Attributes and namespace bindings lie nowhere but with an element. -/
theorem owned_attribute (h : T.Linked root) {p a : N} (hp : T.Reaches root p)
    (ha : a ∈ T.attributes p) : T.isOwned a := by
  rw [isOwned, h.kind_attribute p hp a ha]
  rfl

theorem owned_namespace (h : T.Linked root) {p a : N} (hp : T.Reaches root p)
    (ha : a ∈ T.namespaces p) : T.isOwned a := by
  rw [isOwned, h.kind_namespace p hp a ha]
  rfl

theorem not_owned_of_isElement {n : N} (h : T.isElement n) : T.isOwned n = false := by
  have hkind : T.kind n = .element := eq_of_beq h
  rw [isOwned, hkind]
  rfl

/-- What has attributes is no attribute itself. -/
theorem not_owned_of_attribute (h : T.Linked root) {p a : N} (hp : T.Reaches root p)
    (ha : a ∈ T.attributes p) : T.isOwned p = false := by
  cases he : T.isElement p with
  | true => exact not_owned_of_isElement he
  | false =>
    rw [h.attributes_other p hp he] at ha
    simp at ha

theorem not_owned_of_namespace (h : T.Linked root) {p a : N} (hp : T.Reaches root p)
    (ha : a ∈ T.namespaces p) : T.isOwned p = false := by
  cases he : T.isElement p with
  | true => exact not_owned_of_isElement he
  | false =>
    rw [h.namespaces_other p hp he] at ha
    simp at ha

theorem not_owned_of_child (h : T.Linked root) {p c : N} (hp : T.Reaches root p)
    (hc : c ∈ T.children p) : T.isOwned p = false := by
  cases ho : T.isOwned p with
  | false => rfl
  | true =>
    rw [h.children_owned p hp ho] at hc
    simp at hc

/-- A node that is no attribute and no namespace binding is the root or a child of such a node. -/
theorem content_cases (h : T.Linked root) {n : N} (hn : T.Reaches root n)
    (ho : T.isOwned n = false) :
    n = root ∨ ∃ p, T.Reaches root p ∧ T.isOwned p = false ∧ n ∈ T.children p := by
  cases hn with
  | root => exact .inl rfl
  | @child p _ hp hc => exact .inr ⟨p, hp, h.not_owned_of_child hp hc, hc⟩
  | attributeOf hp ha => simp [h.owned_attribute hp ha] at ho
  | namespaceOf hp ha => simp [h.owned_namespace hp ha] at ho

/-- An attribute or a namespace binding belongs to a node that is neither. -/
theorem owner_cases (h : T.Linked root) {n : N} (hn : T.Reaches root n) (ho : T.isOwned n) :
    ∃ p, T.Reaches root p ∧ T.isOwned p = false ∧ T.parent n = some p ∧
      (n ∈ T.attributes p ∨ n ∈ T.namespaces p) := by
  cases hn with
  | root => simp [h.root_not_owned] at ho
  | child hp hc => simp [h.child_not_owned _ hp _ hc] at ho
  | @attributeOf p _ hp ha =>
    exact ⟨p, hp, h.not_owned_of_attribute hp ha, h.parent_attribute p hp n ha, .inl ha⟩
  | @namespaceOf p _ hp ha =>
    exact ⟨p, hp, h.not_owned_of_namespace hp ha, h.parent_namespace p hp n ha, .inr ha⟩

/-- What holds of the root, and of a child if it holds of the parent, holds of every node that is no
attribute and no namespace binding. -/
theorem content_induction (h : T.Linked root) {motive : N → Prop} (base : motive root)
    (step : ∀ p c, T.Reaches root p → T.isOwned p = false → c ∈ T.children p → motive p → motive c)
    {n : N} (hn : T.Reaches root n) : T.isOwned n = false → motive n := by
  induction hn with
  | root => exact fun _ => base
  | @child p c hp hc ih =>
    intro _
    have ho := h.not_owned_of_child hp hc
    exact step p c hp ho hc (ih ho)
  | attributeOf hp ha =>
    intro ho
    simp [h.owned_attribute hp ha] at ho
  | namespaceOf hp ha =>
    intro ho
    simp [h.owned_namespace hp ha] at ho

end Linked

/-! ### Above and below -/

/-- The walk up meets exactly the nodes above its start. -/
theorem mem_above {a n : N} : a ∈ T.above n ↔ T.Ancestor a n := by
  constructor
  · intro ha
    induction hk : T.depth n using Nat.strongRecOn generalizing n with
    | ind k ih =>
      cases hp : T.parent n with
      | none =>
        rw [above_of_root T hp] at ha
        simp at ha
      | some p =>
        rw [above_of_parent T hp] at ha
        rcases List.mem_cons.1 ha with rfl | ha
        · exact .parent hp
        · have hlt : T.depth p < k := hk ▸ T.depth_lt hp
          exact .up hp (ih _ hlt ha rfl)
  · intro ha
    induction ha with
    | parent hp =>
      rw [above_of_parent T hp]
      exact List.mem_cons_self
    | up hp _ ih =>
      rw [above_of_parent T hp]
      exact List.mem_cons_of_mem _ ih

theorem Ancestor.trans {a b n : N} (hab : T.Ancestor a b) (hbn : T.Ancestor b n) :
    T.Ancestor a n := by
  induction hbn with
  | parent hp => exact .up hp hab
  | up hp _ ih => exact .up hp ih

theorem mem_below_iff {n m : N} :
    m ∈ T.below n ↔ ∃ c ∈ T.children n, m = c ∨ m ∈ T.below c := by
  rw [below_eq, List.mem_flatMap]
  simp only [subtree, List.mem_cons]

theorem mem_below_of_child {n p c : N} (hp : p = n ∨ p ∈ T.below n) (hc : c ∈ T.children p) :
    c ∈ T.below n := by
  induction hk : T.height n using Nat.strongRecOn generalizing n with
  | ind k ih =>
    rcases hp with rfl | hp
    · exact mem_below_iff.2 ⟨c, hc, .inl rfl⟩
    · obtain ⟨d, hd, hp⟩ := mem_below_iff.1 hp
      have hlt : T.height d < k := hk ▸ T.height_lt hd
      exact mem_below_iff.2 ⟨d, hd, .inr (ih _ hlt hp rfl)⟩

/-- What is below a node has it above. -/
theorem Linked.ancestor_of_mem_below (h : T.Linked root) {n m : N} (hn : T.Reaches root n)
    (hm : m ∈ T.below n) : T.Ancestor n m := by
  induction hk : T.height n using Nat.strongRecOn generalizing n with
  | ind k ih =>
    obtain ⟨c, hc, hm⟩ := mem_below_iff.1 hm
    have hparent : T.Ancestor n c := .parent (h.parent_child n hn c hc)
    rcases hm with rfl | hm
    · exact hparent
    · have hlt : T.height c < k := hk ▸ T.height_lt hc
      exact hparent.trans (ih _ hlt (.child hn hc) hm rfl)

/-- A node that is no attribute and no namespace binding is a child of its parent. -/
theorem Linked.mem_children_of_parent (h : T.Linked root) {n p : N} (hn : T.Reaches root n)
    (ho : T.isOwned n = false) (hp : T.parent n = some p) :
    T.Reaches root p ∧ T.isOwned p = false ∧ n ∈ T.children p := by
  rcases h.content_cases hn ho with rfl | ⟨q, hq, hoq, hc⟩
  · simp [h.parent_root] at hp
  · rw [h.parent_child q hq n hc, Option.some.injEq] at hp
    exact hp ▸ ⟨hq, hoq, hc⟩

/-- What has a node above is below it, unless it is an attribute or a namespace binding. -/
theorem Linked.mem_below_of_ancestor (h : T.Linked root) {n m : N} (hm : T.Reaches root m)
    (ho : T.isOwned m = false) (ha : T.Ancestor n m) : m ∈ T.below n := by
  induction ha with
  | parent hp =>
    obtain ⟨-, -, hc⟩ := h.mem_children_of_parent hm ho hp
    exact mem_below_of_child (.inl rfl) hc
  | up hp _ ih =>
    obtain ⟨hp', hop, hc⟩ := h.mem_children_of_parent hm ho hp
    exact mem_below_of_child (.inr (ih hp' hop)) hc

/-! ### Places -/

variable [DecidableEq N]

theorem takeWhile_append_dropWhile_ne {n : N} {ns : List N} (h : n ∈ ns) :
    ∃ later, ns.dropWhile (· ≠ n) = n :: later ∧ ns = ns.takeWhile (· ≠ n) ++ n :: later := by
  induction ns with
  | nil => simp at h
  | cons m ns ih =>
    by_cases hm : m = n
    · exact ⟨ns, by simp [hm], by simp [hm]⟩
    · have hmem : n ∈ ns := (List.mem_cons.1 h).resolve_left fun heq => hm heq.symm
      obtain ⟨later, hdrop, hsplit⟩ := ih hmem
      refine ⟨later, by simpa [hm] using hdrop, ?_⟩
      simpa [hm] using hsplit

/-- A child has its place among the children of its parent. -/
theorem Linked.place_child (h : T.Linked root) {p c : N} (hp : T.Reaches root p)
    (hc : c ∈ T.children p) : ∃ s : Place N, T.place c = .ok (some s) ∧ s.parent = p ∧
      T.children p = s.earlier ++ c :: s.later := by
  obtain ⟨later, hdrop, hsplit⟩ := takeWhile_append_dropWhile_ne hc
  refine ⟨⟨p, (T.children p).takeWhile (· ≠ c), later⟩, ?_, rfl, hsplit⟩
  unfold place
  rw [h.child_not_owned p hp c hc, h.parent_child p hp c hc]
  simp only [Bool.false_eq_true, if_false]
  rw [hdrop]

theorem Linked.place_root (h : T.Linked root) : T.place root = .ok none := by
  unfold place
  rw [h.root_not_owned, h.parent_root]
  rfl

/-- A climb from a node that is no attribute and no namespace binding gets to the root. -/
theorem Linked.climbs (h : T.Linked root) {n : N} (hn : T.Reaches root n)
    (ho : T.isOwned n = false) : ∃ ss, T.Climbs n ss := by
  refine h.content_induction (motive := fun n => ∃ ss, T.Climbs n ss) ?_ ?_ hn ho
  · exact ⟨[], .stop h.place_root⟩
  intro p c hp _ hc ih
  obtain ⟨ss, hss⟩ := ih
  obtain ⟨s, hs, rfl, -⟩ := h.place_child hp hc
  exact ⟨s :: ss, .climb hs hss⟩

end Tree
end XPath
