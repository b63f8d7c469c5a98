import XPath.Proofs.Tree.Linked
import XPath.Tree.Table

/-!
# Document order and the partition of a tree

Document order is the order of a walk through the whole tree that meets an element before its
namespace bindings, these before its attributes, and these before its children.  Every node cuts
that walk in two, and the axes from the node are the pieces.

* `Tree.walk`: all nodes from a node on;
* `Tree.listed`, `Linked.walk_induction`: the nodes that the walk lists under a node;
* `Tree.Lawful`: a tree whose links agree and whose order is that of the walk;
* `Linked.split`: how a node cuts the walk;
* `along_partition`: ancestors, what precedes, what follows and descendants.
-/

namespace XPath
namespace Tree

variable {N : Type} (T : Tree N)

/-! ### The walk -/

/-- A node, its namespace bindings, its attributes and everything below it, in document order. -/
def walk (n : N) : List N :=
  n :: (T.namespaces n ++ (T.attributes n ++ (T.children n).attach.flatMap fun c => walk c.1))
termination_by T.height n
decreasing_by exact T.height_lt c.2

theorem walk_eq (n : N) :
    T.walk n = n :: (T.namespaces n ++ (T.attributes n ++ (T.children n).flatMap T.walk)) := by
  rw [walk]
  simp only [List.flatMap_subtype, List.unattach_attach]

/-- The nodes of a list that are no attributes and no namespace bindings. -/
def content (ns : List N) : List N :=
  ns.filter fun n => !T.isOwned n

@[simp] theorem content_nil : T.content [] = [] := rfl

@[simp] theorem content_append (ns ms : List N) :
    T.content (ns ++ ms) = T.content ns ++ T.content ms :=
  List.filter_append ..

theorem content_cons {n : N} (h : T.isOwned n = false) (ns : List N) :
    T.content (n :: ns) = n :: T.content ns := by
  simp [content, h]

theorem content_eq_nil {ns : List N} (h : ∀ n ∈ ns, T.isOwned n) : T.content ns = [] := by
  rw [content, List.filter_eq_nil_iff]
  intro n hn
  simp [h n hn]

theorem mem_content {n : N} {ns : List N} : n ∈ T.content ns ↔ n ∈ ns ∧ T.isOwned n = false := by
  simp [content]

/-- The links agree, and document order is the order of the walk from the root. -/
structure Lawful (root : N) : Prop extends T.Linked root where
  /-- Of two nodes on the walk the first comes before the second and not after it. -/
  ordered : (T.walk root).Pairwise fun a b => T.before a b ∧ T.before b a = false
  /-- No node comes before itself. -/
  irreflexive : ∀ n, T.Reaches root n → T.before n n = false

variable {T} {root : N}

theorem Linked.content_namespaces (h : T.Linked root) {n : N} (hn : T.Reaches root n) :
    T.content (T.namespaces n) = [] :=
  T.content_eq_nil fun _ ha => h.owned_namespace hn ha

theorem Linked.content_attributes (h : T.Linked root) {n : N} (hn : T.Reaches root n) :
    T.content (T.attributes n) = [] :=
  T.content_eq_nil fun _ ha => h.owned_attribute hn ha

/-- The walk meets the content of the subtree in document order. -/
theorem Linked.content_walk (h : T.Linked root) {n : N} (hn : T.Reaches root n)
    (ho : T.isOwned n = false) : T.content (T.walk n) = T.subtree n := by
  induction hk : T.height n using Nat.strongRecOn generalizing n with
  | ind k ih =>
    have hchildren : T.content ((T.children n).flatMap T.walk)
        = (T.children n).flatMap T.subtree := by
      rw [content, List.filter_flatMap, List.flatMap_def, List.flatMap_def]
      refine congrArg List.flatten (List.map_congr_left fun c hc => ?_)
      have hlt : T.height c < k := hk ▸ T.height_lt hc
      exact ih _ hlt (.child hn hc) (h.child_not_owned n hn c hc) rfl
    rw [walk_eq, T.content_cons ho, content_append, content_append, h.content_namespaces hn,
      h.content_attributes hn, hchildren, subtree, below_eq]
    rfl

/-- Walks from children of a node meet the content of their subtrees. -/
theorem Linked.content_walks (h : T.Linked root) {p : N} (hp : T.Reaches root p) {ns : List N}
    (hns : ∀ m ∈ ns, m ∈ T.children p) : T.content (ns.flatMap T.walk) = ns.flatMap T.subtree := by
  rw [content, List.filter_flatMap, List.flatMap_def, List.flatMap_def]
  refine congrArg List.flatten (List.map_congr_left fun c hc => ?_)
  exact h.content_walk (.child hp (hns c hc)) (h.child_not_owned p hp c (hns c hc))

/-- What is met on the walk from a node can be reached. -/
theorem reaches_of_mem_walk {n m : N} (hn : T.Reaches root n) (hm : m ∈ T.walk n) :
    T.Reaches root m := by
  induction hk : T.height n using Nat.strongRecOn generalizing n with
  | ind k ih =>
    rw [walk_eq] at hm
    rcases List.mem_cons.1 hm with rfl | hm
    · exact hn
    · rcases List.mem_append.1 hm with hm | hm
      · exact .namespaceOf hn hm
      · rcases List.mem_append.1 hm with hm | hm
        · exact .attributeOf hn hm
        · obtain ⟨c, hc, hm⟩ := List.mem_flatMap.1 hm
          have hlt : T.height c < k := hk ▸ T.height_lt hc
          exact ih _ hlt (.child hn hc) hm rfl

/-! ### Step by step -/

/-- The nodes that the walk lists under a node. -/
def listed (T : Tree N) (n : N) : List N :=
  T.namespaces n ++ (T.attributes n ++ T.children n)

theorem mem_listed {n m : N} :
    m ∈ T.listed n ↔ m ∈ T.namespaces n ∨ m ∈ T.attributes n ∨ m ∈ T.children n := by
  rw [listed, List.mem_append, List.mem_append]

theorem reaches_of_mem_listed {n m : N} (hn : T.Reaches root n) (hm : m ∈ T.listed n) :
    T.Reaches root m := by
  rcases mem_listed.1 hm with hm | hm | hm
  · exact .namespaceOf hn hm
  · exact .attributeOf hn hm
  · exact .child hn hm

/-- Whatever is listed under a node names it as its parent. -/
theorem Linked.parent_listed (h : T.Linked root) {n m : N} (hn : T.Reaches root n)
    (hm : m ∈ T.listed n) : T.parent m = some n := by
  rcases mem_listed.1 hm with hm | hm | hm
  · exact h.parent_namespace n hn m hm
  · exact h.parent_attribute n hn m hm
  · exact h.parent_child n hn m hm

/-- Every node but the root is listed under its parent. -/
theorem Linked.listed_cases (h : T.Linked root) {n : N} (hn : T.Reaches root n) :
    n = root ∨ ∃ p, T.Reaches root p ∧ n ∈ T.listed p ∧ T.parent n = some p := by
  cases hn with
  | root => exact .inl rfl
  | @child p _ hp hc => exact .inr ⟨p, hp, mem_listed.2 (.inr (.inr hc)), h.parent_child p hp n hc⟩
  | @attributeOf p _ hp ha =>
    exact .inr ⟨p, hp, mem_listed.2 (.inr (.inl ha)), h.parent_attribute p hp n ha⟩
  | @namespaceOf p _ hp ha =>
    exact .inr ⟨p, hp, mem_listed.2 (.inl ha), h.parent_namespace p hp n ha⟩

/-- Nothing is listed under an attribute or a namespace binding. -/
theorem Linked.listed_owned (h : T.Linked root) {n : N} (hn : T.Reaches root n)
    (ho : T.isOwned n) : T.listed n = [] := by
  have he : T.isElement n = false := by
    cases he : T.isElement n with
    | false => rfl
    | true => simp [not_owned_of_isElement he] at ho
  rw [listed, h.namespaces_other n hn he, h.attributes_other n hn he, h.children_owned n hn ho]
  rfl

/-- What holds of a node if it holds of all nodes listed under it holds of every node. -/
theorem Linked.walk_induction (h : T.Linked root) {motive : N → Prop}
    (step : ∀ n, T.Reaches root n → (∀ m ∈ T.listed n, motive m) → motive n) {n : N}
    (hn : T.Reaches root n) : motive n := by
  have howned : ∀ m, T.Reaches root m → T.isOwned m → motive m := by
    intro m hm ho
    refine step m hm ?_
    simp [h.listed_owned hm ho]
  induction hk : T.height n using Nat.strongRecOn generalizing n with
  | ind k ih =>
    refine step n hn fun m hm => ?_
    rcases mem_listed.1 hm with ha | ha | hc
    · exact howned m (.namespaceOf hn ha) (h.owned_namespace hn ha)
    · exact howned m (.attributeOf hn ha) (h.owned_attribute hn ha)
    · have hlt : T.height m < k := hk ▸ T.height_lt hc
      exact ih _ hlt (.child hn hc) rfl

/-- The walk from a node lists the node and then walks from all that is listed under it. -/
theorem Linked.walk_eq_listed (h : T.Linked root) {n : N} (hn : T.Reaches root n) :
    T.walk n = n :: (T.listed n).flatMap T.walk := by
  have hleaves : ∀ ms : List N, (∀ m ∈ ms, T.Reaches root m ∧ T.isOwned m) →
      ms.flatMap T.walk = ms := by
    intro ms hms
    induction ms with
    | nil => rfl
    | cons m ms ih =>
      obtain ⟨⟨hm, ho⟩, hrest⟩ := List.forall_mem_cons.1 hms
      have hlisted := h.listed_owned hm ho
      simp only [listed, List.append_eq_nil_iff] at hlisted
      rw [List.flatMap_cons, ih hrest, walk_eq, hlisted.1, hlisted.2.1, hlisted.2.2]
      rfl
  have hspaces := hleaves (T.namespaces n) fun m hm =>
    ⟨.namespaceOf hn hm, h.owned_namespace hn hm⟩
  have hattributes := hleaves (T.attributes n) fun m hm =>
    ⟨.attributeOf hn hm, h.owned_attribute hn hm⟩
  rw [walk_eq, listed, List.flatMap_append, List.flatMap_append, hspaces, hattributes]

/-! ### How a node cuts the walk -/

/-- What lies before a child, if `a` is above its parent `p` and `l` to the left of that. -/
theorem perm_of_place {pre a l e : List N} {p : N} (h : pre.Perm (a ++ l)) :
    (pre ++ p :: ([] ++ ([] ++ e))).Perm (p :: a ++ (e.reverse ++ l)) := by
  have hside : (l ++ e).Perm (e.reverse ++ l) :=
    List.perm_append_comm.trans ((List.reverse_perm e).symm.append_right l)
  calc pre ++ p :: ([] ++ ([] ++ e))
    _ = pre ++ p :: e := rfl
    List.Perm _ ((a ++ l) ++ p :: e) := h.append_right (p :: e)
    List.Perm _ (p :: ((a ++ l) ++ e)) := List.perm_middle
    _ = p :: (a ++ (l ++ e)) := by rw [List.append_assoc]
    List.Perm _ (p :: (a ++ (e.reverse ++ l))) := (hside.append_left a).cons p

/-- The walk cut at a node: what lies before it, what belongs to it and what lies behind, and the
parts of these that precede the node and that follow it. -/
structure Cut (T : Tree N) (root n : N) (pre own post prec foll : List N) : Prop where
  /-- The node lies between the parts. -/
  walk_eq : T.walk root = pre ++ n :: (own ++ post)
  /-- What belongs to the node is what is below it. -/
  content_own : T.content own = T.below n
  /-- What lies behind follows. -/
  content_post : T.content post = foll
  /-- What lies before is above or precedes. -/
  content_pre : (T.content pre).Perm (T.above n ++ prec)

/-- The walk meets no node twice. -/
theorem Lawful.nodup_walk (h : T.Lawful root) : (T.walk root).Nodup := by
  refine h.ordered.imp ?_
  intro a b hab heq
  subst heq
  simp [hab.1] at hab

namespace Cut

variable {n : N} {pre own post prec foll : List N}

/-- The parts of a cut, the node itself among them, are the content of the walk. -/
theorem perm (hcut : Cut T root n pre own post prec foll) :
    (T.content (T.walk root)).Perm
      (T.above n ++ prec ++ foll ++ T.below n ++ (if T.isOwned n then [] else [n])) := by
  have hself : T.content [n] = if T.isOwned n then [] else [n] := by
    cases ho : T.isOwned n with
    | false => simp [content, ho]
    | true => simp [content, ho]
  have hmiddle : T.content (n :: (own ++ post)) = T.content [n] ++ (T.below n ++ foll) := by
    rw [← hcut.content_own, ← hcut.content_post, ← content_append, ← content_append]
    rfl
  have hturn : (T.content [n] ++ (T.below n ++ foll)).Perm (foll ++ T.below n ++ T.content [n]) :=
    List.perm_append_comm.trans (List.perm_append_comm.append_right _)
  rw [hcut.walk_eq, content_append, hmiddle, ← hself]
  calc T.content pre ++ (T.content [n] ++ (T.below n ++ foll))
    List.Perm _ ((T.above n ++ prec) ++ (foll ++ T.below n ++ T.content [n])) :=
      hcut.content_pre.append hturn
    _ = T.above n ++ prec ++ foll ++ T.below n ++ T.content [n] := by simp

/-- The parts of a cut have no node in common. -/
theorem nodup (hcut : Cut T root n pre own post prec foll) (h : T.Lawful root) :
    (T.above n ++ prec ++ foll ++ T.below n ++ (if T.isOwned n then [] else [n])).Nodup :=
  hcut.perm.nodup_iff.1 (h.nodup_walk.filter _)

theorem nodup_preceding (hcut : Cut T root n pre own post prec foll) (h : T.Lawful root) :
    (T.above n ++ prec).Nodup := by
  have hnodup := hcut.nodup h
  simp only [List.append_assoc] at hnodup
  rw [← List.append_assoc] at hnodup
  exact (List.nodup_append.1 hnodup).1

theorem nodup_following (hcut : Cut T root n pre own post prec foll) (h : T.Lawful root) :
    (foll ++ T.below n).Nodup := by
  have hnodup := (List.nodup_append.1 (hcut.nodup h)).1
  rw [List.append_assoc] at hnodup
  exact (List.nodup_append.1 hnodup).2.1

/-- What lies before a cut comes before the node in document order. -/
theorem before_of_pre (hcut : Cut T root n pre own post prec foll) (h : T.Lawful root) {m : N}
    (hm : m ∈ pre) : T.before m n ∧ T.before n m = false := by
  have hordered := h.ordered
  rw [hcut.walk_eq, List.pairwise_append] at hordered
  exact hordered.2.2 m hm n List.mem_cons_self

/-- What lies behind a cut comes after the node in document order. -/
theorem before_of_post (hcut : Cut T root n pre own post prec foll) (h : T.Lawful root) {m : N}
    (hm : m ∈ own ++ post) : T.before n m ∧ T.before m n = false := by
  have hordered := h.ordered
  rw [hcut.walk_eq, List.pairwise_append] at hordered
  exact (List.pairwise_cons.1 hordered.2.1).1 m hm

/-- A node that is no attribute and no namespace binding lies in one of the parts. -/
theorem mem_cases (hcut : Cut T root n pre own post prec foll) {m : N}
    (hm : m ∈ T.content (T.walk root)) :
    m ∈ T.above n ∨ m ∈ prec ∨ m ∈ foll ∨ m ∈ T.below n ∨ m = n := by
  have hparts := hcut.perm.mem_iff.1 hm
  simp only [List.mem_append] at hparts
  rcases hparts with (((hm | hm) | hm) | hm) | hm
  · exact .inl hm
  · exact .inr (.inl hm)
  · exact .inr (.inr (.inl hm))
  · exact .inr (.inr (.inr (.inl hm)))
  · refine .inr (.inr (.inr (.inr ?_)))
    split at hm
    · simp at hm
    · exact List.mem_singleton.1 hm

theorem mem_pre_of_preceding (hcut : Cut T root n pre own post prec foll) {m : N}
    (hm : m ∈ T.above n ∨ m ∈ prec) : m ∈ pre :=
  ((mem_content T).1 (hcut.content_pre.mem_iff.2 (List.mem_append.2 hm))).1

theorem mem_post_of_following (hcut : Cut T root n pre own post prec foll) {m : N}
    (hm : m ∈ T.below n ∨ m ∈ foll) : m ∈ own ++ post := by
  rw [← hcut.content_own, ← hcut.content_post, ← List.mem_append, ← content_append] at hm
  exact ((mem_content T).1 hm).1

end Cut

variable [DecidableEq N]

/-- A node that is no attribute and no namespace binding has the nodes above it and those to its
left before it, and those to its right behind everything below it. -/
theorem Linked.split_content (h : T.Linked root) {n : N} (hn : T.Reaches root n)
    (ho : T.isOwned n = false) : ∀ ss, T.Climbs n ss →
      ∃ pre post, T.walk root = pre ++ (T.walk n ++ post) ∧ T.content post = T.toRight ss ∧
        (T.content pre).Perm (T.above n ++ T.toLeft ss) := by
  refine h.content_induction (motive := fun n => ∀ ss, T.Climbs n ss →
    ∃ pre post, T.walk root = pre ++ (T.walk n ++ post) ∧ T.content post = T.toRight ss ∧
      (T.content pre).Perm (T.above n ++ T.toLeft ss)) ?_ ?_ hn ho
  -- nothing lies beside the root
  · intro ss hss
    cases hss with
    | stop => exact ⟨[], [], by simp, rfl, by simp [T.above_of_root h.parent_root]⟩
    | climb hs up => simp [h.place_root] at hs
  -- a child is walked between its earlier and its later siblings, inside its parent
  · intro p c hp hop hc ih ss hss
    obtain ⟨s, hs, rfl, hsplit⟩ := h.place_child hp hc
    cases hss with
    | stop hs' => simp [hs] at hs'
    | climb hs' up =>
      rw [hs, Except.ok.injEq, Option.some.injEq] at hs'
      subst hs'
      obtain ⟨pre, post, hwalk, hpost, hpre⟩ := ih _ up
      have hparent : T.parent c = some s.parent := h.parent_child _ hp c hc
      have hside : ∀ ns : List N, (∀ m ∈ ns, m ∈ T.children s.parent) →
          T.content (ns.flatMap T.walk) = ns.flatMap T.subtree :=
        fun ns hns => h.content_walks hp hns
      have hearlier := hside s.earlier fun m hm => by simp [hsplit, hm]
      have hlater := hside s.later fun m hm => by simp [hsplit, hm]
      refine ⟨pre ++ (s.parent :: (T.namespaces s.parent ++ (T.attributes s.parent ++
        s.earlier.flatMap T.walk))), s.later.flatMap T.walk ++ post, ?_, ?_, ?_⟩
      · rw [hwalk, walk_eq T s.parent, hsplit]
        simp
      · rw [content_append, hlater, hpost, toRight_cons]
      · rw [content_append, T.content_cons hop, content_append, content_append,
          h.content_namespaces hp, h.content_attributes hp, hearlier, T.above_of_parent hparent,
          toLeft_cons]
        exact perm_of_place hpre

/-- Every node cuts the walk: the nodes above it and those that precede it lie before it, and those
that follow it lie behind everything below it. -/
theorem Linked.split (h : T.Linked root) {n : N} (hn : T.Reaches root n) :
    ∃ pre own post prec foll, Cut T root n pre own post prec foll ∧
      T.along (fun _ => true) .following n = .ok foll ∧
      T.along (fun _ => true) .preceding n = .ok prec := by
  cases ho : T.isOwned n with
  | false =>
    obtain ⟨ss, hss⟩ := h.climbs hn ho
    obtain ⟨pre, post, hwalk, hpost, hpre⟩ := h.split_content hn ho ss hss
    refine ⟨pre, (T.walk n).tail, post, T.toLeft ss, T.toRight ss, ⟨?_, ?_, hpost, hpre⟩, ?_, ?_⟩
    · rw [hwalk, walk_eq T n]
      rfl
    · have hcontent := h.content_walk hn ho
      rw [walk_eq T n, T.content_cons ho, subtree, List.cons.injEq] at hcontent
      rw [walk_eq T n]
      exact hcontent.2
    · rw [along_following _ ho hss, filter_always]
    · rw [along_preceding _ ho hss, filter_always]
  | true =>
    obtain ⟨p, hp, hop, hparent, hlisted⟩ := h.owner_cases hn ho
    obtain ⟨ss, hss⟩ := h.climbs hp hop
    obtain ⟨pre, post, hwalk, hpost, hpre⟩ := h.split_content hp hop ss hss
    -- the attributes and namespace bindings around the node
    obtain ⟨x, y, hxy⟩ : ∃ x y, T.namespaces p ++ T.attributes p = x ++ n :: y := by
      refine List.append_of_mem (List.mem_append.2 ?_)
      exact hlisted.symm
    have howned : ∀ m ∈ T.namespaces p ++ T.attributes p, T.isOwned m := by
      intro m hm
      rcases List.mem_append.1 hm with hm | hm
      · exact h.owned_namespace hp hm
      · exact h.owned_attribute hp hm
    rw [hxy] at howned
    have hx : T.content x = [] := T.content_eq_nil fun m hm => howned m (by simp [hm])
    have hy : T.content y = [] := T.content_eq_nil fun m hm => howned m (by simp [hm])
    refine ⟨pre ++ p :: x, [], y ++ ((T.children p).flatMap T.walk ++ post), T.toLeft ss,
      T.below p ++ T.toRight ss, ⟨?_, ?_, ?_, ?_⟩, ?_, ?_⟩
    · rw [hwalk, walk_eq T p, ← List.append_assoc (T.namespaces p), hxy]
      simp
    · rw [below_eq, h.children_owned n hn ho]
      rfl
    · rw [content_append, content_append, hy, h.content_walks hp fun _ hm => hm, hpost, below_eq]
      rfl
    · rw [content_append, T.content_cons hop, hx, T.above_of_parent hparent]
      exact perm_of_place hpre
    · rw [along_following_owned _ ho hparent hss, filter_always]
    · rw [along_preceding_owned _ ho hparent hss, filter_always]

/-! ### The axes -/

/-- The walk meets every node that can be reached. -/
theorem Linked.mem_walk (h : T.Linked root) {n : N} : n ∈ T.walk root ↔ T.Reaches root n := by
  constructor
  · exact reaches_of_mem_walk .root
  · intro hn
    obtain ⟨pre, own, post, _, _, hcut, -⟩ := h.split hn
    rw [hcut.walk_eq]
    simp

theorem Linked.mem_content_walk (h : T.Linked root) {n : N} :
    n ∈ T.content (T.walk root) ↔ T.Reaches root n ∧ T.isOwned n = false := by
  rw [mem_content, h.mem_walk]

namespace Cut

variable {n : N} {pre own post prec foll : List N}

/-- What follows comes after the node, and nothing else that is not below it does. -/
theorem mem_following (hcut : Cut T root n pre own post prec foll) (h : T.Lawful root)
    (hn : T.Reaches root n) {m : N} :
    m ∈ foll ↔ m ∈ T.content (T.walk root) ∧ T.before n m ∧ ¬T.Ancestor n m := by
  constructor
  · intro hm
    have hmem : m ∈ T.content (T.walk root) := hcut.perm.mem_iff.2 (by simp [hm])
    refine ⟨hmem, (hcut.before_of_post h (hcut.mem_post_of_following (.inr hm))).1, ?_⟩
    intro hanc
    have hbelow : m ∈ T.below n :=
      h.mem_below_of_ancestor (h.mem_content_walk.1 hmem).1 (h.mem_content_walk.1 hmem).2 hanc
    exact (List.nodup_append.1 (hcut.nodup_following h)).2.2 m hm m hbelow rfl
  · rintro ⟨hmem, hbefore, hanc⟩
    have hpre : m ∉ pre := by
      intro hm
      simp [(hcut.before_of_pre h hm).2] at hbefore
    rcases hcut.mem_cases hmem with hm | hm | hm | hm | rfl
    · exact absurd (hcut.mem_pre_of_preceding (.inl hm)) hpre
    · exact absurd (hcut.mem_pre_of_preceding (.inr hm)) hpre
    · exact hm
    · exact absurd (h.ancestor_of_mem_below hn hm) hanc
    · simp [h.irreflexive m hn] at hbefore

omit [DecidableEq N] in
/-- What precedes comes before the node, and nothing else that is not above it does. -/
theorem mem_preceding (hcut : Cut T root n pre own post prec foll) (h : T.Lawful root)
    (hn : T.Reaches root n) {m : N} :
    m ∈ prec ↔ m ∈ T.content (T.walk root) ∧ T.before m n ∧ ¬T.Ancestor m n := by
  constructor
  · intro hm
    have hmem : m ∈ T.content (T.walk root) := hcut.perm.mem_iff.2 (by simp [hm])
    refine ⟨hmem, (hcut.before_of_pre h (hcut.mem_pre_of_preceding (.inr hm))).1, ?_⟩
    intro hanc
    exact (List.nodup_append.1 (hcut.nodup_preceding h)).2.2 m (mem_above.2 hanc) m hm rfl
  · rintro ⟨hmem, hbefore, hanc⟩
    have hpost : m ∉ own ++ post := by
      intro hm
      simp [(hcut.before_of_post h hm).2] at hbefore
    rcases hcut.mem_cases hmem with hm | hm | hm | hm | rfl
    · exact absurd (mem_above.1 hm) hanc
    · exact hm
    · exact absurd (hcut.mem_post_of_following (.inr hm)) hpost
    · exact absurd (hcut.mem_post_of_following (.inl hm)) hpost
    · simp [h.irreflexive m hn] at hbefore

end Cut

/-- From every node of a lawful tree the axes split the tree.  What is found along `following` is
what comes after the node and is not below it, what is found along `preceding` is what comes before
it and is not above it, attributes and namespace bindings apart and each node once; together with
what is above and below, and the node itself, that is every node. -/
theorem along_partition (h : T.Lawful root) {n : N} (hn : T.Reaches root n) :
    ∃ anc prec foll desc : List N,
      T.along (fun _ => true) .ancestor n = .ok anc ∧
      T.along (fun _ => true) .preceding n = .ok prec ∧
      T.along (fun _ => true) .following n = .ok foll ∧
      T.along (fun _ => true) .descendant n = .ok desc ∧
      (foll.Nodup ∧ ∀ m, m ∈ foll ↔
        T.Reaches root m ∧ T.isOwned m = false ∧ T.before n m ∧ ¬T.Ancestor n m) ∧
      (prec.Nodup ∧ ∀ m, m ∈ prec ↔
        T.Reaches root m ∧ T.isOwned m = false ∧ T.before m n ∧ ¬T.Ancestor m n) ∧
      (anc ++ prec ++ foll ++ desc ++ (if T.isOwned n then [] else [n])).Nodup ∧
      ∀ m, m ∈ anc ++ prec ++ foll ++ desc ++ (if T.isOwned n then [] else [n]) ↔
        T.Reaches root m ∧ T.isOwned m = false := by
  obtain ⟨pre, own, post, prec, foll, hcut, hfollowing, hpreceding⟩ := h.split hn
  have hancestor : T.along (fun _ => true) .ancestor n = .ok (T.above n) := by
    rw [along_ancestor, filter_always]
  have hdescendant : T.along (fun _ => true) .descendant n = .ok (T.below n) := by
    rw [along_descendant, filter_always]
  refine ⟨T.above n, prec, foll, T.below n, hancestor, hpreceding, hfollowing, hdescendant,
    ⟨?_, ?_⟩, ⟨?_, ?_⟩, hcut.nodup h, ?_⟩
  · exact (List.nodup_append.1 (hcut.nodup_following h)).1
  · intro m
    rw [hcut.mem_following h hn, h.mem_content_walk, and_assoc]
  · exact (List.nodup_append.1 (hcut.nodup_preceding h)).2.1
  · intro m
    rw [hcut.mem_preceding h hn, h.mem_content_walk, and_assoc]
  · intro m
    rw [← hcut.perm.mem_iff, h.mem_content_walk]

/-- The links of the sample lead to rows of the sample. -/
theorem lt_of_reaches_sample {n : Nat} (h : Table.sample.tree.Reaches 0 n) : n < 13 := by
  have hlinks : ∀ p : Fin 13, ∀ m ∈ Table.sample.tree.children p ++
      (Table.sample.tree.attributes p ++ Table.sample.tree.namespaces p), m < 13 := by decide
  induction h with
  | root => decide
  | @child p c _ hc ih => exact hlinks ⟨p, ih⟩ c (by simp [hc])
  | @attributeOf p a _ ha ih => exact hlinks ⟨p, ih⟩ a (by simp [ha])
  | @namespaceOf p a _ ha ih => exact hlinks ⟨p, ih⟩ a (by simp [ha])

/-- What holds of all rows of the sample holds of all nodes that can be reached. -/
theorem of_rows_sample {P : Nat → Prop} (h : ∀ n : Fin 13, P n) :
    ∀ n, Table.sample.tree.Reaches 0 n → P n :=
  fun n hn => h ⟨n, lt_of_reaches_sample hn⟩

theorem lawful_sample : Table.sample.tree.Lawful 0 where
  parent_root := rfl
  root_not_owned := rfl
  parent_child := of_rows_sample (by decide)
  child_not_owned := of_rows_sample (by decide)
  parent_attribute := of_rows_sample (by decide)
  kind_attribute := of_rows_sample (by decide)
  parent_namespace := of_rows_sample (by decide)
  kind_namespace := of_rows_sample (by decide)
  children_owned := of_rows_sample (by decide)
  attributes_other := of_rows_sample (by decide)
  namespaces_other := of_rows_sample (by decide)
  ordered := by
    have hwalk : Table.sample.tree.walk 0 = List.range 13 := by decide +kernel
    rw [hwalk]
    decide
  irreflexive _ _ := by simp [Table.tree]

/-- The second attribute of the first paragraph, with its paragraph and the root above it. -/
theorem along_partition_attribute :
    Table.sample.tree.Lawful 0 ∧ Table.sample.tree.Reaches 0 4 ∧
      ∃ anc prec foll desc : List Nat,
        Table.sample.tree.along (fun _ => true) .ancestor 4 = .ok anc ∧
        Table.sample.tree.along (fun _ => true) .preceding 4 = .ok prec ∧
        Table.sample.tree.along (fun _ => true) .following 4 = .ok foll ∧
        Table.sample.tree.along (fun _ => true) .descendant 4 = .ok desc ∧
        (anc ++ prec ++ foll ++ desc ++ []).Nodup ∧ 5 ∈ foll ∧ 1 ∉ prec := by
  have hreaches : Table.sample.tree.Reaches 0 4 := by
    have hpara : Table.sample.tree.Reaches 0 1 := .child .root (by decide)
    exact .attributeOf hpara (by decide)
  have hleaf : Table.sample.tree.Reaches 0 5 := by
    have hpara : Table.sample.tree.Reaches 0 1 := .child .root (by decide)
    exact .child hpara (by decide)
  obtain ⟨anc, prec, foll, desc, hanc, hprec, hfoll, hdesc, ⟨-, hfollowing⟩, ⟨-, hpreceding⟩,
    hnodup, -⟩ := along_partition lawful_sample hreaches
  refine ⟨lawful_sample, hreaches, anc, prec, foll, desc, hanc, hprec, hfoll, hdesc, hnodup, ?_, ?_⟩
  · refine (hfollowing 5).2 ⟨hleaf, by decide, by decide, ?_⟩
    rw [← mem_above]
    decide +kernel
  · rw [hpreceding 1]
    intro hpara
    exact hpara.2.2.2 (.parent rfl)

end Tree
end XPath
