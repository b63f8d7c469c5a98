import XPath.Proofs.Tree.Linked

/-!
# Links stay inside the tree

From a node that can be reached from the root of a linked tree, the nodes above it, below it and
beside it can be reached too.

* `Linked.reaches_parent`, `Linked.reaches_of_mem_below`: one link and many;
* `Linked.place_cases`: where a node stands;
* `mem_inOrder`: document order changes no set of nodes.
-/

namespace XPath
namespace Tree

variable {N : Type} {T : Tree N} {root : N}

/-! ### Up and down -/

theorem Linked.reaches_parent (h : T.Linked root) {n p : N} (hn : T.Reaches root n)
    (hp : T.parent n = some p) : T.Reaches root p := by
  cases hn with
  | root => simp [h.parent_root] at hp
  | child hq hc =>
    rw [h.parent_child _ hq n hc, Option.some.injEq] at hp
    exact hp ▸ hq
  | attributeOf hq ha =>
    rw [h.parent_attribute _ hq n ha, Option.some.injEq] at hp
    exact hp ▸ hq
  | namespaceOf hq ha =>
    rw [h.parent_namespace _ hq n ha, Option.some.injEq] at hp
    exact hp ▸ hq

theorem Linked.reaches_of_mem_above (h : T.Linked root) {n a : N} (hn : T.Reaches root n)
    (ha : a ∈ T.above n) : T.Reaches root a := by
  have hanc := mem_above.1 ha
  clear ha
  induction hanc with
  | parent hp => exact h.reaches_parent hn hp
  | up hp _ ih => exact ih (h.reaches_parent hn hp)

theorem reaches_of_mem_below {n m : N} (hn : T.Reaches root n) (hm : m ∈ T.below n) :
    T.Reaches root m := by
  induction hk : T.height n using Nat.strongRecOn generalizing n with
  | ind k ih =>
    obtain ⟨c, hc, hm⟩ := mem_below_iff.1 hm
    have hlt : T.height c < k := hk ▸ T.height_lt hc
    rcases hm with rfl | hm
    · exact .child hn hc
    · exact ih _ hlt (.child hn hc) hm rfl

/-! ### Sideways -/

variable [DecidableEq N]

/-- A node has no place, or it has one among the children of a node that can be reached. -/
theorem Linked.place_cases (h : T.Linked root) {n : N} (hn : T.Reaches root n) :
    ∃ s, T.place n = .ok s ∧ ∀ q ∈ s, T.Reaches root q.parent ∧ T.isOwned q.parent = false ∧
      T.children q.parent = q.earlier ++ n :: q.later := by
  cases ho : T.isOwned n with
  | true =>
    refine ⟨none, ?_, by simp⟩
    rw [place, if_pos ho]
  | false =>
    rcases h.content_cases hn ho with rfl | ⟨p, hp, hop, hc⟩
    · exact ⟨none, h.place_root, by simp⟩
    · obtain ⟨s, hs, rfl, hsplit⟩ := h.place_child hp hc
      refine ⟨some s, hs, ?_⟩
      intro q hq
      rw [Option.mem_some_iff] at hq
      exact hq ▸ ⟨hp, hop, hsplit⟩

/-! ### Document order -/

theorem mem_squeeze {ns : List N} {m : N} : m ∈ squeeze ns ↔ m ∈ ns := by
  fun_induction squeeze ns with
  | case1 => rfl
  | case2 => rfl
  | case3 n ns ih =>
    rw [ih]
    simp
  | case4 n k ns _ ih => simp only [List.mem_cons, ih]

/-- Document order changes no set of nodes. -/
theorem mem_inOrder {ns : List N} {m : N} : m ∈ T.inOrder ns ↔ m ∈ ns := by
  rw [inOrder, mem_squeeze, List.mem_mergeSort]

end Tree
end XPath
