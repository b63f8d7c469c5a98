import XPath.Proofs.Tree.Closed
import XPath.Tree.Table

/-!
# Lists in document order

Where document order is a total order, a set of nodes has one list in document order and one first
node, in whatever list it was given.

* `Tree.Ordered`: document order is a strict total order;
* `Tree.Ascending`: a list in document order, each node once;
* `Ordered.ascending_inOrder`: bringing nodes into document order does so;
* `Ordered.inOrder_congr`, `Ordered.first?_congr`: lists with the same members.
-/

namespace XPath
namespace Tree

variable {N : Type} {T : Tree N}

/-- Document order is a strict total order on the nodes. -/
structure Ordered (T : Tree N) : Prop where
  /-- No node comes before itself. -/
  irrefl : ∀ a, T.before a a = false
  /-- What comes before a node comes before all that the node comes before. -/
  trans : ∀ a b c, T.before a b → T.before b c → T.before a c
  /-- Of two nodes one comes before the other. -/
  total : ∀ a b, T.before a b ∨ a = b ∨ T.before b a

/-- Each node of the list comes before all those behind it. -/
def Ascending (T : Tree N) (ns : List N) : Prop :=
  ns.Pairwise fun a b => T.before a b

instance [DecidableEq N] (T : Tree N) (ns : List N) : Decidable (T.Ascending ns) :=
  inferInstanceAs (Decidable (ns.Pairwise fun a b => T.before a b))

namespace Ordered

theorem asymm (h : T.Ordered) {a b : N} (hab : T.before a b) : T.before b a = false := by
  cases hba : T.before b a with
  | false => rfl
  | true =>
    have haa := h.trans a b a hab hba
    simp [h.irrefl] at haa

theorem notAfter_iff (h : T.Ordered) {a b : N} : T.notAfter a b ↔ T.before a b ∨ a = b := by
  rw [notAfter, Bool.not_eq_true']
  constructor
  · intro hba
    rcases h.total a b with hab | hab | hab
    · exact .inl hab
    · exact .inr hab
    · simp [hab] at hba
  · rintro (hab | rfl)
    · exact h.asymm hab
    · exact h.irrefl a

/-! ### Ascending lists -/

theorem nodup_of_ascending (h : T.Ordered) {ns : List N} (hns : T.Ascending ns) : ns.Nodup := by
  refine hns.imp ?_
  rintro a b hab rfl
  simp [h.irrefl] at hab

/-- Ascending lists with the same members are the same list. -/
theorem eq_of_ascending (h : T.Ordered) {ns ms : List N} (hns : T.Ascending ns)
    (hms : T.Ascending ms) (hmem : ∀ n, n ∈ ns ↔ n ∈ ms) : ns = ms := by
  have hperm : ns.Perm ms :=
    (List.perm_ext_iff_of_nodup (h.nodup_of_ascending hns) (h.nodup_of_ascending hms)).2 hmem
  refine List.Perm.eq_of_pairwise (fun a b _ _ hab hba => ?_) hns hms hperm
  simp [h.asymm hab] at hba

/-- What sorting leaves out of order are repetitions that stand next to each other. -/
theorem ascending_squeeze [DecidableEq N] (h : T.Ordered) {ns : List N}
    (hns : ns.Pairwise fun a b => T.before a b ∨ a = b) : T.Ascending (squeeze ns) := by
  fun_induction squeeze ns with
  | case1 => exact .nil
  | case2 n => exact List.pairwise_singleton _ n
  | case3 n ns ih => exact ih (List.pairwise_cons.1 hns).2
  | case4 n m ns hne ih =>
    obtain ⟨hn, hrest⟩ := List.pairwise_cons.1 hns
    have hnm : T.before n m := (hn m List.mem_cons_self).resolve_right hne
    refine List.pairwise_cons.2 ⟨fun k hk => ?_, ih hrest⟩
    rcases List.mem_cons.1 (mem_squeeze.1 hk) with rfl | hk
    · exact hnm
    · rcases (List.pairwise_cons.1 hrest).1 k hk with hmk | rfl
      · exact h.trans n m k hnm hmk
      · exact hnm

/-- Bringing nodes into document order yields an ascending list. -/
theorem ascending_inOrder [DecidableEq N] (h : T.Ordered) (ns : List N) :
    T.Ascending (T.inOrder ns) := by
  have htrans : ∀ a b c, T.notAfter a b → T.notAfter b c → T.notAfter a c := by
    intro a b c hab hbc
    rw [h.notAfter_iff] at hab hbc ⊢
    rcases hab with hab | rfl
    · rcases hbc with hbc | rfl
      · exact .inl (h.trans a b c hab hbc)
      · exact .inl hab
    · exact hbc
  have htotal : ∀ a b, (T.notAfter a b || T.notAfter b a) = true := by
    intro a b
    rw [Bool.or_eq_true, h.notAfter_iff, h.notAfter_iff]
    rcases h.total a b with hab | rfl | hba
    · exact .inl (.inl hab)
    · exact .inl (.inr rfl)
    · exact .inr (.inl hba)
  have hsorted := List.pairwise_mergeSort htrans htotal ns
  exact h.ascending_squeeze (hsorted.imp fun hab => h.notAfter_iff.1 hab)

/-- Lists with the same members are brought into the same order. -/
theorem inOrder_congr [DecidableEq N] (h : T.Ordered) {ns ms : List N}
    (hmem : ∀ n, n ∈ ns ↔ n ∈ ms) : T.inOrder ns = T.inOrder ms := by
  refine h.eq_of_ascending (h.ascending_inOrder ns) (h.ascending_inOrder ms) ?_
  intro n
  rw [mem_inOrder, mem_inOrder]
  exact hmem n

/-- An ascending list stays as it is. -/
theorem inOrder_eq_self [DecidableEq N] (h : T.Ordered) {ns : List N} (hns : T.Ascending ns) :
    T.inOrder ns = ns :=
  h.eq_of_ascending (h.ascending_inOrder ns) hns fun _ => mem_inOrder

/-! ### The first node -/

/-- The search for the first node holds on to the least node met so far. -/
theorem least_of_foldl (h : T.Ordered) (ns : List N) : ∀ m,
    ns.foldl (fun m x => if T.before x m then x else m) m ∈ m :: ns ∧ ∀ x ∈ m :: ns,
      T.before x (ns.foldl (fun m x => if T.before x m then x else m) m) = false := by
  induction ns with
  | nil => exact fun m => ⟨List.mem_cons_self, by simp [h.irrefl]⟩
  | cons n ns ih =>
    intro m
    rw [List.foldl_cons]
    cases hnm : T.before n m with
    | true =>
      obtain ⟨hmem, hleast⟩ := ih n
      simp only [if_true]
      refine ⟨List.mem_cons_of_mem m hmem, List.forall_mem_cons.2 ⟨?_, hleast⟩⟩
      -- what comes before the least node would come before `n`, as `n` does before `m`
      cases hm : T.before m _ with
      | false => rfl
      | true => simp [h.trans n m _ hnm hm] at hleast
    | false =>
      obtain ⟨hmem, hleast⟩ := ih m
      obtain ⟨hm, hns⟩ := List.forall_mem_cons.1 hleast
      simp only [Bool.false_eq_true, if_false]
      refine ⟨?_, List.forall_mem_cons.2 ⟨hm, List.forall_mem_cons.2 ⟨?_, hns⟩⟩⟩
      · rcases List.mem_cons.1 hmem with heq | hmem
        · rw [heq]
          exact List.mem_cons_self
        · exact List.mem_cons_of_mem m (List.mem_cons_of_mem n hmem)
      · cases hn : T.before n _ with
        | false => rfl
        | true =>
          rcases h.total m n with hmn | rfl | hnm'
          · simp [h.trans m n _ hmn hn] at hm
          · simp [hn] at hm
          · simp [hnm] at hnm'

/-- The first node of a list is the member that no member comes before. -/
theorem first?_eq_some (h : T.Ordered) {ns : List N} {m : N} :
    T.first? ns = some m ↔ m ∈ ns ∧ ∀ n ∈ ns, T.before n m = false := by
  cases ns with
  | nil => simp [first?]
  | cons n ns =>
    obtain ⟨hmem, hleast⟩ := h.least_of_foldl ns n
    rw [first?, Option.some.injEq]
    generalize ns.foldl (fun m x => if T.before x m then x else m) n = r at *
    constructor
    · rintro rfl
      exact ⟨hmem, hleast⟩
    · rintro ⟨hm, hfirst⟩
      rcases h.total r m with hbefore | heq | hbefore
      · simp [hfirst _ hmem] at hbefore
      · exact heq
      · simp [hleast m hm] at hbefore

/-- Lists with the same members have the same first node. -/
theorem first?_congr (h : T.Ordered) {ns ms : List N} (hmem : ∀ n, n ∈ ns ↔ n ∈ ms) :
    T.first? ns = T.first? ms := by
  refine Option.ext fun m => ?_
  rw [h.first?_eq_some, h.first?_eq_some]
  simp only [hmem]

end Ordered

/-- The rows of a table are in a total order. -/
theorem ordered_table (t : Table) : t.tree.Ordered where
  irrefl a := by simp [Table.tree]
  trans a b c hab hbc := by
    simp only [Table.tree, decide_eq_true_eq] at *
    omega
  total a b := by
    simp only [Table.tree, decide_eq_true_eq]
    omega

end Tree
end XPath
