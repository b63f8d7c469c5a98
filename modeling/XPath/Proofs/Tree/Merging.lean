import XPath.Proofs.Tree.Order
import XPath.Proofs.Tree.Partition

/-!
# Nodes of a lawful tree in document order

In a lawful tree document order is that of the walk, so it is a total order on the nodes that can be
reached.  Nothing is known of other nodes; yet lists of nodes that can be reached are brought into
one and the same order, for sorting compares no others.

* `Lawful.before_iff`: document order as the order of places on the walk;
* `Tree.among`: nodes that satisfy a condition, with nothing but their order;
* `inOrder_among`, `Lawful.ordered_among`: the order among such nodes;
* `Lawful.inOrder_congr`, `Lawful.inOrder_eq_self`: lists with the same members, and lists that are
  in document order.
-/

namespace XPath
namespace Tree

variable {N : Type} {T : Tree N} {root : N}

/-! ### Places on the walk -/

/-- Of two nodes that one comes before the other which the walk meets first. -/
theorem Lawful.before_iff (h : T.Lawful root) {i j : Nat} (hi : i < (T.walk root).length)
    (hj : j < (T.walk root).length) : T.before (T.walk root)[i] (T.walk root)[j] ↔ i < j := by
  have hpairs := List.pairwise_iff_getElem.1 h.ordered
  rcases Nat.lt_trichotomy i j with hlt | rfl | hlt
  · simp [hlt, (hpairs i j hi hj hlt).1]
  · have hreach : T.Reaches root (T.walk root)[i] := reaches_of_mem_walk .root (List.getElem_mem hi)
    simp [h.irreflexive _ hreach]
  · simp [Nat.not_lt_of_lt hlt, (hpairs j i hj hi hlt).2]

/-! ### Order alone -/

/-- The nodes that satisfy a condition, in their order and without any links. -/
def among (T : Tree N) (S : N → Prop) : Tree {n // S n} where
  kind n := T.kind n
  name n := T.name n
  stringValue n := T.stringValue n
  attributes _ := []
  namespaces _ := []
  children _ := []
  parent _ := none
  before a b := T.before a b
  height _ := 0
  depth _ := 0
  height_lt h := absurd h List.not_mem_nil
  depth_lt h := absurd h (Option.not_mem_none _)

variable [DecidableEq N]

/-- Among the nodes that can be reached, document order is a total order. -/
theorem Lawful.ordered_among (h : T.Lawful root) : (T.among (T.Reaches root)).Ordered := by
  have hplace : ∀ n : {n // T.Reaches root n},
      ∃ i, ∃ hi : i < (T.walk root).length, (T.walk root)[i] = n.1 :=
    fun n => List.mem_iff_getElem.1 (h.toLinked.mem_walk.2 n.2)
  constructor
  · exact fun a => h.irreflexive a.1 a.2
  · intro a b c hab hbc
    obtain ⟨i, hi, ha⟩ := hplace a
    obtain ⟨j, hj, hb⟩ := hplace b
    obtain ⟨k, hk, hc⟩ := hplace c
    simp only [among, ← ha, ← hb, ← hc, h.before_iff] at *
    omega
  · intro a b
    obtain ⟨i, hi, ha⟩ := hplace a
    obtain ⟨j, hj, hb⟩ := hplace b
    rcases Nat.lt_trichotomy i j with hlt | rfl | hlt
    · exact .inl (by simpa only [among, ← ha, ← hb, h.before_iff] using hlt)
    · exact .inr (.inl (Subtype.ext (ha.symm.trans hb)))
    · exact .inr (.inr (by simpa only [among, ← ha, ← hb, h.before_iff] using hlt))

/-- Repetitions among nodes are repetitions among their like. -/
theorem squeeze_map {S : N → Prop} (ns : List {n // S n}) :
    (squeeze ns).map Subtype.val = squeeze (ns.map Subtype.val) := by
  fun_induction squeeze ns with
  | case1 => rfl
  | case2 n => rfl
  | case3 n ns ih =>
    rw [ih]
    simp only [List.map_cons, squeeze, if_true]
  | case4 n m ns hne ih =>
    have hval : n.1 ≠ m.1 := fun heq => hne (Subtype.ext heq)
    rw [List.map_cons, ih]
    simp only [List.map_cons, squeeze, if_neg hval]

/-- Nodes are brought into the same order among their like. -/
theorem inOrder_among (T : Tree N) {S : N → Prop} (ns : List {n // S n}) :
    ((T.among S).inOrder ns).map Subtype.val = T.inOrder (ns.map Subtype.val) := by
  have hsort : (ns.mergeSort (T.among S).notAfter).map Subtype.val
      = (ns.map Subtype.val).mergeSort T.notAfter := List.map_mergeSort fun _ _ _ _ => rfl
  rw [inOrder, inOrder, squeeze_map, hsort]

/-- Lists of nodes that can be reached, with the same members, are brought into the same order. -/
theorem Lawful.inOrder_congr (h : T.Lawful root) {ns ms : List N}
    (hns : ∀ n ∈ ns, T.Reaches root n) (hmem : ∀ n, n ∈ ns ↔ n ∈ ms) :
    T.inOrder ns = T.inOrder ms := by
  have hms : ∀ m ∈ ms, T.Reaches root m := fun m hm => hns m ((hmem m).2 hm)
  have hmem' : ∀ n, n ∈ ns.attachWith _ hns ↔ n ∈ ms.attachWith _ hms := by
    intro n
    rw [List.mem_attachWith, List.mem_attachWith]
    exact hmem n
  have hsame := congrArg (List.map Subtype.val) (h.ordered_among.inOrder_congr hmem')
  rwa [inOrder_among, inOrder_among, List.attachWith_map_subtype_val,
    List.attachWith_map_subtype_val] at hsame

/-- A list of nodes that can be reached stays as it is if it is in document order. -/
theorem Lawful.inOrder_eq_self (h : T.Lawful root) {ns : List N}
    (hns : ∀ n ∈ ns, T.Reaches root n) (hascending : T.Ascending ns) : T.inOrder ns = ns := by
  have hamong : (T.among (T.Reaches root)).Ascending (ns.attachWith _ hns) := by
    refine (List.pairwise_map (f := Subtype.val) (R := fun a b => T.before a b)).1 ?_
    rwa [List.attachWith_map_subtype_val]
  have hsame := congrArg (List.map Subtype.val) (h.ordered_among.inOrder_eq_self hamong)
  rwa [inOrder_among, List.attachWith_map_subtype_val] at hsame

end Tree
end XPath
