import XPath.Proofs.Tree.Order
import XPath.Proofs.Tree.Partition
import XPath.Proofs.Xml.Location

/-!
# Document order of a document

The order of locations compares the first links at which two ways part.  It is the order of the walk
through the document, and the order of keys made of a number, a rank and an index: a number for each
item, which an attribute or a binding shares with its element, and the place of the link next to it.
All that is asked of the numbers is that they increase.

* `Document.ordered`: the order of locations is total;
* `Document.lawful`: it is the order of the walk;
* `Document.Increasing`, `Location.key`: numbers of items, and the keys made from them;
* `Document.before_iff_key`, `Document.eq_of_key`: keys stand for locations;
* `Document.number`: such numbers, which count the white space that is no child;
* `Document.walk_keys`: the walk, its keys and its links.
-/

namespace XPath.Xml

/-! ### Links and ways -/

namespace Link

theorem before_iff {a b : Link} :
    a.before b ↔ a.rank < b.rank ∨ a.rank = b.rank ∧ a.index < b.index := by
  simp [before]

theorem before_irrefl (a : Link) : a.before a = false := by
  simp [before]

theorem before_trans {a b c : Link} (hab : a.before b) (hbc : b.before c) : a.before c := by
  rw [before_iff] at *
  omega

theorem eq_of_rank_index {a b : Link} (hr : a.rank = b.rank) (hi : a.index = b.index) : a = b := by
  cases a <;> cases b <;> simp_all [rank, index]

theorem before_total (a b : Link) : a.before b ∨ a = b ∨ b.before a := by
  rw [before_iff, before_iff]
  by_cases hr : a.rank = b.rank
  · by_cases hi : a.index = b.index
    · exact .inr (.inl (eq_of_rank_index hr hi))
    · omega
  · omega

end Link

@[simp] theorem wayBefore_nil (as : List Link) : wayBefore as [] = false := by
  cases as <;> rfl

@[simp] theorem wayBefore_cons {a b : Link} {as bs : List Link} :
    wayBefore (a :: as) (b :: bs) ↔ a.before b ∨ a = b ∧ wayBefore as bs := by
  simp [wayBefore]

theorem wayBefore_irrefl (as : List Link) : wayBefore as as = false := by
  induction as with
  | nil => rfl
  | cons a as ih => simp [wayBefore, ih, a.before_irrefl]

theorem wayBefore_trans {as bs cs : List Link} (hab : wayBefore as bs) (hbc : wayBefore bs cs) :
    wayBefore as cs := by
  induction as generalizing bs cs with
  | nil =>
    cases cs with
    | nil => simp at hbc
    | cons c cs => rfl
  | cons a as ih =>
    cases bs with
    | nil => simp at hab
    | cons b bs =>
      cases cs with
      | nil => simp at hbc
      | cons c cs =>
        rw [wayBefore_cons] at hab hbc ⊢
        rcases hab with hab | ⟨rfl, hab⟩
        · rcases hbc with hbc | ⟨rfl, -⟩
          · exact .inl (Link.before_trans hab hbc)
          · exact .inl hab
        · rcases hbc with hbc | ⟨rfl, hbc⟩
          · exact .inl hbc
          · exact .inr ⟨rfl, ih hab hbc⟩

theorem wayBefore_total (as bs : List Link) : wayBefore as bs ∨ as = bs ∨ wayBefore bs as := by
  induction as generalizing bs with
  | nil =>
    cases bs with
    | nil => exact .inr (.inl rfl)
    | cons b bs => exact .inl rfl
  | cons a as ih =>
    cases bs with
    | nil => exact .inr (.inr rfl)
    | cons b bs =>
      rw [wayBefore_cons, wayBefore_cons]
      rcases a.before_total b with hab | rfl | hba
      · exact .inl (.inl hab)
      · rcases ih bs with h | rfl | h
        · exact .inl (.inr ⟨rfl, h⟩)
        · exact .inr (.inl rfl)
        · exact .inr (.inr (.inr ⟨rfl, h⟩))
      · exact .inr (.inr (.inl hba))

/-- What two ways have in common at their start does not count. -/
theorem wayBefore_append (ks as bs : List Link) :
    wayBefore (ks ++ as) (ks ++ bs) = wayBefore as bs := by
  induction ks with
  | nil => rfl
  | cons k ks ih => simp [wayBefore, ih, k.before_irrefl]

namespace Location

/-- A node comes before whatever its way leads on to. -/
theorem before_extend {n : Location} {k : Link} {ks : List Link} :
    Location.before n (ks ++ k :: n) := by
  have hway := wayBefore_append n.reverse [] (k :: ks.reverse)
  simp only [List.append_nil] at hway
  simp only [Location.before, List.reverse_append, List.reverse_cons, List.append_assoc]
  rw [List.cons_append, List.nil_append, hway]
  rfl

/-- Where two ways part, the links decide. -/
theorem before_of_links {n : Location} {k l : Link} (h : k.before l) {as bs : List Link} :
    Location.before (as ++ k :: n) (bs ++ l :: n) := by
  simp only [Location.before, List.reverse_append, List.reverse_cons, List.append_assoc,
    List.cons_append, List.nil_append, wayBefore_append, wayBefore_cons]
  exact .inl h

/-- The nodes are listed under `n`, the first of them by an earlier link. -/
def Forks (n a b : Location) : Prop :=
  ∃ k l : Link, a = k :: n ∧ b = l :: n ∧ k.before l

end Location

namespace Document

variable (d : Document)

/-- The order of locations is total. -/
theorem ordered : d.tree.Ordered where
  irrefl n := wayBefore_irrefl n.reverse
  trans _ _ _ hab hbc := wayBefore_trans hab hbc
  total a b := by
    rcases wayBefore_total a.reverse b.reverse with h | h | h
    · exact .inl h
    · exact .inr (.inl (List.reverse_inj.1 h))
    · exact .inr (.inr h)

/-! ### The walk through a document -/

variable {d} {n m : Location}

/-- The nodes listed under a node, each by the link that leads to it. -/
theorem exists_link_of_listed (hm : m ∈ d.tree.listed n) : ∃ k : Link, m = k :: n := by
  rcases Tree.mem_listed.1 hm with hm | hm | hm
  · obtain ⟨r, i, -, -, rfl⟩ := mem_links.1 hm
    exact ⟨_, rfl⟩
  · obtain ⟨r, i, -, -, rfl⟩ := mem_links.1 hm
    exact ⟨_, rfl⟩
  · obtain ⟨r, i, -, -, rfl⟩ := mem_links.1 hm
    exact ⟨_, rfl⟩

section Links

variable {link link' : Nat → Link} (count count' : Referent → Nat)

theorem links_pairwise (h : ∀ i j, i < j → (link i).before (link j)) :
    (d.links link count n).Pairwise (Location.Forks n) :=
  List.pairwise_map.2 (List.pairwise_lt_range.imp fun {i j} hij => ⟨_, _, rfl, rfl, h i j hij⟩)

theorem links_forks (h : ∀ i j, (link i).before (link' j)) :
    ∀ a ∈ d.links link count n, ∀ b ∈ d.links link' count' n, Location.Forks n a b := by
  intro a ha b hb
  obtain ⟨-, i, -, -, rfl⟩ := mem_links.1 ha
  obtain ⟨-, j, -, -, rfl⟩ := mem_links.1 hb
  exact ⟨_, _, rfl, rfl, h i j⟩

end Links

/-- The nodes listed under a node are listed in the order of their links. -/
theorem listed_pairwise (d : Document) (n : Location) :
    (d.tree.listed n).Pairwise (Location.Forks n) := by
  have hspaces : (d.tree.namespaces n).Pairwise (Location.Forks n) :=
    links_pairwise _ fun i j hij => by simp [Link.before, Link.rank, Link.index, hij]
  have hattributes : (d.tree.attributes n).Pairwise (Location.Forks n) :=
    links_pairwise _ fun i j hij => by simp [Link.before, Link.rank, Link.index, hij]
  have hchildren : (d.tree.children n).Pairwise (Location.Forks n) :=
    links_pairwise _ fun i j hij => by simp [Link.before, Link.rank, Link.index, hij]
  refine List.pairwise_append.2 ⟨hspaces, List.pairwise_append.2 ⟨hattributes, hchildren, ?_⟩, ?_⟩
  · exact links_forks _ _ fun _ _ => rfl
  · intro a ha b hb
    rcases List.mem_append.1 hb with hb | hb
    · exact links_forks _ _ (fun _ _ => rfl) a ha b hb
    · exact links_forks _ _ (fun _ _ => rfl) a ha b hb

theorem mem_walk_iff (hn : d.tree.Reaches [] n) :
    m ∈ d.tree.walk n ↔ m = n ∨ ∃ c ∈ d.tree.listed n, m ∈ d.tree.walk c := by
  rw [d.linked.walk_eq_listed hn, List.mem_cons, List.mem_flatMap]

/-- The way to a node on the walk leads through the start of the walk. -/
theorem suffix_of_mem_walk (hn : d.tree.Reaches [] n) : ∀ m ∈ d.tree.walk n, n <:+ m := by
  refine d.linked.walk_induction (motive := fun n => ∀ m ∈ d.tree.walk n, n <:+ m) ?_ hn
  intro n hn ih m hm
  rcases (mem_walk_iff hn).1 hm with rfl | ⟨c, hc, hm⟩
  · exact List.suffix_refl m
  · obtain ⟨k, rfl⟩ := exists_link_of_listed hc
    exact (List.suffix_cons k n).trans (ih _ hc m hm)

/-- A walk is ordered by a relation that puts every node before what is listed under it, and
whatever is met from one link before whatever is met from a later one. -/
theorem walk_pairwise {R : Location → Location → Prop}
    (hdown : ∀ n, d.tree.Reaches [] n → ∀ c ∈ d.tree.listed n, ∀ m ∈ d.tree.walk c, R n m)
    (hside : ∀ n, d.tree.Reaches [] n → ∀ k l : Link, k :: n ∈ d.tree.listed n →
      l :: n ∈ d.tree.listed n → k.before l →
      ∀ a ∈ d.tree.walk (k :: n), ∀ b ∈ d.tree.walk (l :: n), R a b)
    (hn : d.tree.Reaches [] n) : (d.tree.walk n).Pairwise R := by
  refine d.linked.walk_induction (motive := fun n => (d.tree.walk n).Pairwise R) ?_ hn
  intro n hn ih
  rw [d.linked.walk_eq_listed hn, List.pairwise_cons, List.pairwise_flatMap]
  refine ⟨?_, ih, (d.listed_pairwise n).imp_of_mem ?_⟩
  · intro m hm
    obtain ⟨c, hc, hm⟩ := List.mem_flatMap.1 hm
    exact hdown n hn c hc m hm
  · rintro _ _ hk hl ⟨k, l, rfl, rfl, hkl⟩
    exact hside n hn k l hk hl hkl

/-- A node comes before what the walk meets below it. -/
theorem before_of_listed {c : Location} (hn : d.tree.Reaches [] n) (hc : c ∈ d.tree.listed n)
    (hm : m ∈ d.tree.walk c) : d.tree.before n m := by
  obtain ⟨k, rfl⟩ := exists_link_of_listed hc
  obtain ⟨ks, rfl⟩ := suffix_of_mem_walk (Tree.reaches_of_mem_listed hn hc) m hm
  exact Location.before_extend

/-- What the walk meets from a link comes before what it meets from a later one. -/
theorem before_of_listed_links {k l : Link} (hn : d.tree.Reaches [] n)
    (hk : k :: n ∈ d.tree.listed n) (hl : l :: n ∈ d.tree.listed n) (hkl : k.before l)
    {a b : Location} (ha : a ∈ d.tree.walk (k :: n)) (hb : b ∈ d.tree.walk (l :: n)) :
    d.tree.before a b := by
  obtain ⟨as, rfl⟩ := suffix_of_mem_walk (Tree.reaches_of_mem_listed hn hk) a ha
  obtain ⟨bs, rfl⟩ := suffix_of_mem_walk (Tree.reaches_of_mem_listed hn hl) b hb
  exact Location.before_of_links hkl

/-- The walk is in document order. -/
theorem ascending_walk (hn : d.tree.Reaches [] n) : d.tree.Ascending (d.tree.walk n) := by
  refine walk_pairwise ?_ ?_ hn
  · intro n hn c hc m hm
    exact before_of_listed hn hc hm
  · intro n hn k l hk hl hkl a ha b hb
    exact before_of_listed_links hn hk hl hkl ha hb

/-- The tree of a document is lawful. -/
theorem lawful (d : Document) : d.tree.Lawful [] where
  toLinked := d.linked
  ordered := (ascending_walk .root).imp fun hab => ⟨hab, d.ordered.asymm hab⟩
  irreflexive n _ := d.ordered.irrefl n

end Document

/-! ### Items -/

/-- The item that a location leads to; an attribute or a binding belongs to its element. -/
def Location.item : Location → Location
  | .namespaceNode _ :: up | .attribute _ :: up => up
  | n => n

theorem Location.item_cons {n : Location} {k : Link} (h : k.rank < 2) :
    Location.item (k :: n) = n := by
  cases k with
  | namespaceNode i => rfl
  | «attribute» i => rfl
  | child i => simp [Link.rank] at h

namespace Document

variable {d : Document} {n m : Location}

/-- A node is listed under another one as one of its owned nodes, from which the walk does not go
on, or as one of its children. -/
theorem listed_cases {k : Link} (hn : d.tree.Reaches [] n) (hk : k :: n ∈ d.tree.listed n) :
    (d.tree.isOwned (k :: n) ∧ d.tree.walk (k :: n) = [k :: n] ∧ k.rank < 2) ∨
      ∃ i, k = .child i ∧ .child i :: n ∈ d.tree.children n := by
  have hreaches := Tree.reaches_of_mem_listed hn hk
  have hleaf : d.tree.isOwned (k :: n) → d.tree.walk (k :: n) = [k :: n] := by
    intro ho
    rw [d.linked.walk_eq_listed hreaches, d.linked.listed_owned hreaches ho]
    rfl
  rcases Tree.mem_listed.1 hk with hm | hm | hm
  · have ho := d.linked.owned_namespace hn hm
    obtain ⟨r, i, -, -, heq⟩ := mem_links.1 hm
    cases heq
    exact .inl ⟨ho, hleaf ho, Nat.zero_lt_two⟩
  · have ho := d.linked.owned_attribute hn hm
    obtain ⟨r, i, -, -, heq⟩ := mem_links.1 hm
    cases heq
    exact .inl ⟨ho, hleaf ho, Nat.one_lt_two⟩
  · obtain ⟨r, i, -, -, heq⟩ := mem_links.1 hm
    cases heq
    exact .inr ⟨i, rfl, hm⟩

/-- Nodes are listed under items only. -/
theorem not_owned_of_listed (hn : d.tree.Reaches [] n) (hm : m ∈ d.tree.listed n) :
    d.tree.isOwned n = false := by
  cases ho : d.tree.isOwned n with
  | false => rfl
  | true => simp [d.linked.listed_owned hn ho] at hm

/-- An item is the root or a child. -/
theorem item_cases (hn : d.tree.Reaches [] n) (ho : d.tree.isOwned n = false) :
    n = [] ∨ ∃ i up, n = .child i :: up := by
  rcases d.linked.content_cases hn ho with rfl | ⟨p, -, -, hc⟩
  · exact .inl rfl
  · obtain ⟨r, i, -, -, rfl⟩ := mem_links.1 hc
    exact .inr ⟨i, p, rfl⟩

theorem item_of_not_owned (hn : d.tree.Reaches [] n) (ho : d.tree.isOwned n = false) :
    n.item = n := by
  rcases item_cases hn ho with rfl | ⟨i, up, rfl⟩ <;> rfl

/-- With every node, the walk from an item meets the item of the node. -/
theorem item_mem_walk (hn : d.tree.Reaches [] n) : d.tree.isOwned n = false →
    ∀ m ∈ d.tree.walk n, m.item ∈ d.tree.walk n ∧ d.tree.isOwned m.item = false := by
  refine d.linked.walk_induction (motive := fun n => d.tree.isOwned n = false →
    ∀ m ∈ d.tree.walk n, m.item ∈ d.tree.walk n ∧ d.tree.isOwned m.item = false) ?_ hn
  intro n hn ih ho m hm
  rcases (mem_walk_iff hn).1 hm with rfl | ⟨c, hc, hmem⟩
  · rw [item_of_not_owned hn ho]
    exact ⟨hm, ho⟩
  · obtain ⟨k, rfl⟩ := exists_link_of_listed hc
    rcases listed_cases hn hc with ⟨-, hwalk, hk⟩ | ⟨i, rfl, hi⟩
    · rw [hwalk, List.mem_singleton] at hmem
      rw [hmem, Location.item_cons hk]
      exact ⟨(mem_walk_iff hn).2 (.inl rfl), ho⟩
    · have hchild := d.linked.child_not_owned n hn _ hi
      obtain ⟨hitem, howned⟩ := ih _ hc hchild m hmem
      exact ⟨(mem_walk_iff hn).2 (.inr ⟨_, hc, hitem⟩), howned⟩

end Document

/-! ### Keys -/

/-- What nodes are compared by. -/
structure OrderKey where
  /-- The number of the item, or of the element to which an attribute or a binding belongs. -/
  number : Nat
  /-- Items come before bindings, and those before attributes. -/
  rank : Nat
  /-- The place among the bindings or attributes of the element. -/
  index : Nat
  deriving DecidableEq

/-- Keys are compared from the left to the right. -/
def OrderKey.before (a b : OrderKey) : Prop :=
  a.number < b.number ∨
    a.number = b.number ∧ (a.rank < b.rank ∨ a.rank = b.rank ∧ a.index < b.index)

theorem OrderKey.before_asymm {a b : OrderKey} (h : a.before b) : ¬b.before a := by
  unfold before at *
  omega

namespace Location

/-- The key of a node, given numbers of the items. -/
def key (ids : Location → Nat) (n : Location) : OrderKey :=
  match n with
  | .namespaceNode i :: up => ⟨ids up, 1, i⟩
  | .attribute i :: up => ⟨ids up, 2, i⟩
  | n => ⟨ids n, 0, 0⟩

variable {ids : Location → Nat} {n : Location}

@[simp] theorem number_key : (key ids n).number = ids n.item := by
  unfold key item
  split <;> rfl

theorem key_cons (ids : Location → Nat) (n : Location) {k : Link} (h : k.rank < 2) :
    (key ids (k :: n)).rank = k.rank + 1 ∧ (key ids (k :: n)).index = k.index := by
  cases k with
  | namespaceNode i => exact ⟨rfl, rfl⟩
  | «attribute» i => exact ⟨rfl, rfl⟩
  | child i => simp [Link.rank] at h

end Location

namespace Document

/-- The numbers of items increase in document order. -/
def Increasing (d : Document) (ids : Location → Nat) : Prop :=
  ∀ a b, d.tree.Reaches [] a → d.tree.Reaches [] b → d.tree.isOwned a = false →
    d.tree.isOwned b = false → d.tree.before a b → ids a < ids b

variable {d : Document} {ids : Location → Nat} {n m : Location}

theorem rank_key_of_not_owned (hn : d.tree.Reaches [] n) (ho : d.tree.isOwned n = false) :
    (n.key ids).rank = 0 := by
  rcases item_cases hn ho with rfl | ⟨i, up, rfl⟩ <;> rfl

/-- With every node, the walk from a child meets the item of the node. -/
theorem item_of_child {i : Nat} (hn : d.tree.Reaches [] n) (hi : .child i :: n ∈ d.tree.children n)
    (hm : m ∈ d.tree.walk (.child i :: n)) : m.item ∈ d.tree.walk (.child i :: n) ∧
      d.tree.Reaches [] m.item ∧ d.tree.isOwned m.item = false := by
  have hreaches : d.tree.Reaches [] (.child i :: n) := .child hn hi
  obtain ⟨hitem, howned⟩ := item_mem_walk hreaches (d.linked.child_not_owned n hn _ hi) m hm
  exact ⟨hitem, Tree.reaches_of_mem_walk hreaches hitem, howned⟩

/-- The numbers of what the walk meets from a child are above that of its parent. -/
theorem number_lt_of_child (hids : d.Increasing ids) {i : Nat} (hn : d.tree.Reaches [] n)
    (hi : .child i :: n ∈ d.tree.children n) (hm : m ∈ d.tree.walk (.child i :: n)) :
    ids n < ids m.item := by
  have hc : .child i :: n ∈ d.tree.listed n := Tree.mem_listed.2 (.inr (.inr hi))
  obtain ⟨hitem, hreaches, howned⟩ := item_of_child hn hi hm
  exact hids n _ hn hreaches (not_owned_of_listed hn hc) howned (before_of_listed hn hc hitem)

/-- The key of a node comes before those of what the walk meets below it. -/
theorem key_before_of_listed (hids : d.Increasing ids) {c : Location} (hn : d.tree.Reaches [] n)
    (hc : c ∈ d.tree.listed n) (hm : m ∈ d.tree.walk c) : (n.key ids).before (m.key ids) := by
  have ho := not_owned_of_listed hn hc
  obtain ⟨k, rfl⟩ := exists_link_of_listed hc
  rw [OrderKey.before, Location.number_key, Location.number_key, item_of_not_owned hn ho,
    rank_key_of_not_owned hn ho]
  rcases listed_cases hn hc with ⟨-, hwalk, hk⟩ | ⟨i, rfl, hi⟩
  · rw [hwalk, List.mem_singleton] at hm
    rw [hm, Location.item_cons hk, (Location.key_cons ids n hk).1]
    omega
  · exact .inl (number_lt_of_child hids hn hi hm)

/-- The keys of what the walk meets from a link come before those from a later one. -/
theorem key_before_of_listed_links (hids : d.Increasing ids) {k l : Link}
    (hn : d.tree.Reaches [] n) (hk : k :: n ∈ d.tree.listed n) (hl : l :: n ∈ d.tree.listed n)
    (hkl : k.before l) {a b : Location} (ha : a ∈ d.tree.walk (k :: n))
    (hb : b ∈ d.tree.walk (l :: n)) : (a.key ids).before (b.key ids) := by
  have hlinks := Link.before_iff.1 hkl
  rw [OrderKey.before, Location.number_key, Location.number_key]
  rcases listed_cases hn hk with ⟨-, hwalk, hrank⟩ | ⟨i, rfl, hi⟩
  · rw [hwalk, List.mem_singleton] at ha
    rw [ha, Location.item_cons hrank]
    rcases listed_cases hn hl with ⟨-, hwalk', hrank'⟩ | ⟨j, rfl, hj⟩
    · rw [hwalk', List.mem_singleton] at hb
      obtain ⟨hr, hi⟩ := Location.key_cons ids n hrank
      obtain ⟨hr', hi'⟩ := Location.key_cons ids n hrank'
      rw [hb, Location.item_cons hrank', hr, hi, hr', hi']
      omega
    · exact .inl (number_lt_of_child hids hn hj hb)
  · rcases listed_cases hn hl with ⟨-, -, hrank'⟩ | ⟨j, rfl, hj⟩
    · have hlast : (Link.child i).rank = 2 := rfl
      omega
    · obtain ⟨ha', hreaches, howned⟩ := item_of_child hn hi ha
      obtain ⟨hb', hreaches', howned'⟩ := item_of_child hn hj hb
      have hbefore := before_of_listed_links hn hk hl hkl ha' hb'
      exact .inl (hids _ _ hreaches hreaches' howned howned' hbefore)

/-- The keys increase along the walk. -/
theorem walk_keys_pairwise (hids : d.Increasing ids) (hn : d.tree.Reaches [] n) :
    (d.tree.walk n).Pairwise fun a b => (a.key ids).before (b.key ids) := by
  refine walk_pairwise ?_ ?_ hn
  · intro n hn c hc m hm
    exact key_before_of_listed hids hn hc hm
  · intro n hn k l hk hl hkl a ha b hb
    exact key_before_of_listed_links hids hn hk hl hkl ha hb

/-- Where a list is ordered by two relations, one that cannot hold both ways implies the other. -/
theorem rel_of_pairwise {α : Type} {R S : α → α → Prop} {as : List α} (hR : as.Pairwise R)
    (hS : as.Pairwise S) (hasymm : ∀ a b, R a b → ¬R b a) {a b : α} (ha : a ∈ as) (hb : b ∈ as)
    (hab : R a b) : S a b := by
  obtain ⟨i, hi, rfl⟩ := List.getElem_of_mem ha
  obtain ⟨j, hj, rfl⟩ := List.getElem_of_mem hb
  rw [List.pairwise_iff_getElem] at hR hS
  rcases Nat.lt_trichotomy i j with hij | rfl | hij
  · exact hS i j hi hj hij
  · exact absurd hab (hasymm _ _ hab)
  · exact absurd hab (hasymm _ _ (hR j i hj hi hij))

/-- What holds along the walk holds in document order. -/
theorem rel_of_before {S : Location → Location → Prop} (hS : (d.tree.walk []).Pairwise S)
    (hn : n ∈ d.tree.walk []) (hm : m ∈ d.tree.walk []) (h : d.tree.before n m) : S n m := by
  have hasymm : ∀ a b, d.tree.before a b → ¬d.tree.before b a :=
    fun a b hab => by simp [d.ordered.asymm hab]
  exact rel_of_pairwise (ascending_walk .root) hS hasymm hn hm h

/-- The order of locations is that of their keys. -/
theorem before_iff_key (hids : d.Increasing ids) (hn : n ∈ d.tree.walk [])
    (hm : m ∈ d.tree.walk []) : d.tree.before n m ↔ (n.key ids).before (m.key ids) := by
  have hkeys := walk_keys_pairwise hids .root
  constructor
  · exact rel_of_before hkeys hn hm
  · exact rel_of_pairwise hkeys (ascending_walk .root) (fun _ _ => OrderKey.before_asymm) hn hm

/-- A node is known by its key. -/
theorem eq_of_key (hids : d.Increasing ids) (hn : n ∈ d.tree.walk []) (hm : m ∈ d.tree.walk [])
    (h : n.key ids = m.key ids) : n = m := by
  have hirrefl : ¬(m.key ids).before (m.key ids) := fun h => OrderKey.before_asymm h h
  rcases d.ordered.total n m with hbefore | rfl | hbefore
  · exact absurd (h ▸ (before_iff_key hids hn hm).1 hbefore) hirrefl
  · rfl
  · exact absurd (h ▸ (before_iff_key hids hm hn).1 hbefore) hirrefl

end Document

/-! ### Numbers -/

/-- How many items there are in a list before its child at an index, at any depth. -/
def Item.passed : List Item → Nat → Nat
  | [], _ => 0
  | x :: xs, i =>
    if x.isChild then
      match i with
      | 0 => 0
      | i + 1 => x.weight + passed xs i
    else x.weight + passed xs i

/-- A child and all items in it lie behind those passed on the way to it, and before those passed on
the way to a later child. -/
theorem Item.passed_add_weight_le {xs : List Item} {i : Nat} {x : Item}
    (h : (xs.filter Item.isChild)[i]? = some x) :
    Item.passed xs i + x.weight ≤ Item.weights xs ∧
      ∀ j, i < j → Item.passed xs i + x.weight ≤ Item.passed xs j := by
  induction xs generalizing i with
  | nil => simp at h
  | cons y ys ih =>
    -- an item that is no child is passed on the way to every child
    cases hy : y.isChild with
    | false =>
      rw [List.filter_cons_of_neg (by simp [hy])] at h
      obtain ⟨hall, hlater⟩ := ih h
      simp only [passed, hy, weights, Bool.false_eq_true, if_false]
      refine ⟨by omega, fun j hj => ?_⟩
      have := hlater j hj
      omega
    | true =>
      rw [List.filter_cons_of_pos hy] at h
      cases i with
      | zero =>
        rw [List.getElem?_cons_zero, Option.some.injEq] at h
        subst h
        refine ⟨by simp [passed, hy, weights], fun j hj => ?_⟩
        cases j with
        | zero => omega
        | succ j => simp [passed, hy]
      | succ i =>
        rw [List.getElem?_cons_succ] at h
        obtain ⟨hall, hlater⟩ := ih h
        simp only [passed, hy, weights, if_true]
        refine ⟨by omega, fun j hj => ?_⟩
        cases j with
        | zero => omega
        | succ j =>
          have := hlater j (by omega)
          simp only
          omega

namespace Document

variable (d : Document)

/-- The number of the item that a location leads to, or to whose element it belongs: the root has
zero, and every item one more than the items that begin before it. -/
def number : Location → Nat
  | [] => 0
  | .child i :: up => number up + 1 + Item.passed ((d.at? up).elim [] Referent.content) i
  | .namespaceNode _ :: up | .attribute _ :: up => number up

variable {d} {n m : Location}

theorem at?_child {r : Referent} {i : Nat} (hr : d.at? n = some r) (hi : i < r.childItems.length) :
    d.at? (.child i :: n) = some (.item r.childItems[i]) := by
  simp [at?, hr, Referent.follow?, hi]

theorem number_cons {k : Link} (h : k.rank < 2) : d.number (k :: n) = d.number n := by
  cases k with
  | namespaceNode i => rfl
  | «attribute» i => rfl
  | child i => simp [Link.rank] at h

/-- The numbers of a child and of all items in it come behind those of its parent and of earlier
children, and before those of later children and of what lies behind its parent. -/
theorem number_child (hc : .child i :: n ∈ d.tree.children n) :
    d.number n < d.number (.child i :: n) ∧ 0 < d.height (.child i :: n) ∧
      d.number (.child i :: n) + d.height (.child i :: n) ≤ d.number n + d.height n ∧
      ∀ j, i < j →
        d.number (.child i :: n) + d.height (.child i :: n) ≤ d.number (.child j :: n) := by
  obtain ⟨r, i', hr, hi, heq⟩ := mem_links.1 hc
  cases heq
  have hget : (r.content.filter Item.isChild)[i]? = some r.childItems[i] :=
    List.getElem?_eq_getElem hi
  obtain ⟨hall, hlater⟩ := Item.passed_add_weight_le hget
  have hmem : r.childItems[i] ∈ r.content := (List.mem_filter.1 (List.getElem_mem hi)).1
  have hbelow := Referent.weights_content_lt hmem
  have hpos : 0 < (r.childItems[i]).weight := by
    cases r.childItems[i] <;> simp [Item.weight]
  have hparent : d.height n = r.height := by simp [height, hr]
  have hchild : d.height (.child i :: n) = (r.childItems[i]).weight := by
    simp [height, at?_child hr hi, Referent.height]
  have hnumber : ∀ j, d.number (.child j :: n) = d.number n + 1 + Item.passed r.content j := by
    simp [number, hr]
  rw [hparent, hchild, hnumber]
  refine ⟨by omega, hpos, by omega, fun j hj => ?_⟩
  have := hlater j hj
  rw [hnumber]
  omega

/-- The numbers on the walk from a node are those from its own up to what lies behind it. -/
theorem number_of_mem_walk (hn : d.tree.Reaches [] n) : ∀ m ∈ d.tree.walk n,
    d.number n ≤ d.number m ∧ d.number m < d.number n + max 1 (d.height n) := by
  refine d.linked.walk_induction (motive := fun n => ∀ m ∈ d.tree.walk n,
    d.number n ≤ d.number m ∧ d.number m < d.number n + max 1 (d.height n)) ?_ hn
  intro n hn ih m hm
  rcases (mem_walk_iff hn).1 hm with rfl | ⟨c, hc, hm⟩
  · omega
  · have hinside := ih c hc m hm
    obtain ⟨k, rfl⟩ := exists_link_of_listed hc
    rcases listed_cases hn hc with ⟨-, hwalk, hk⟩ | ⟨i, rfl, hi⟩
    · rw [hwalk, List.mem_singleton] at hm
      rw [hm, number_cons hk]
      omega
    · obtain ⟨hlt, hpos, hle, -⟩ := number_child hi
      omega

/-- The numbers of the items increase in document order. -/
theorem number_increasing (d : Document) : d.Increasing d.number := by
  have hwalk : (d.tree.walk []).Pairwise fun a b =>
      d.tree.isOwned a = false → d.tree.isOwned b = false → d.number a < d.number b := by
    refine walk_pairwise ?_ ?_ .root
    -- a node and what is walked from its links
    · intro n hn c hc m hm _ hom
      have hnumber := number_of_mem_walk (Tree.reaches_of_mem_listed hn hc) m hm
      obtain ⟨k, rfl⟩ := exists_link_of_listed hc
      rcases listed_cases hn hc with ⟨ho, hwalk, -⟩ | ⟨i, rfl, hi⟩
      · rw [hwalk, List.mem_singleton] at hm
        simp [hm, ho] at hom
      · have := (number_child hi).1
        omega
    -- what is walked from one link and from a later one
    · intro n hn k l hk hl hkl a ha b hb hoa hob
      have hnumber := number_of_mem_walk (Tree.reaches_of_mem_listed hn hk) a ha
      have hnumber' := number_of_mem_walk (Tree.reaches_of_mem_listed hn hl) b hb
      rcases listed_cases hn hk with ⟨ho, hwalk, -⟩ | ⟨i, rfl, hi⟩
      · rw [hwalk, List.mem_singleton] at ha
        simp [ha, ho] at hoa
      · rcases listed_cases hn hl with ⟨ho, hwalk, -⟩ | ⟨j, rfl, hj⟩
        · rw [hwalk, List.mem_singleton] at hb
          simp [hb, ho] at hob
        · obtain ⟨-, hpos, -, hlater⟩ := number_child hi
          have := hlater j (by simpa [Link.before_iff, Link.rank, Link.index] using hkl)
          omega
  intro a b ha hb hoa hob hab
  rw [← d.linked.mem_walk] at ha hb
  exact rel_of_before hwalk ha hb hab hoa hob

/-! ### The walk -/

/-- The walk through a document, which lists each node, then its namespace bindings, then its
attributes, and then walks from each of its children, has the order of the keys and lists no node
twice, if the numbers of items increase.  Every node is listed under its parent and under nothing
else, the root alone has no parent, and only elements have attributes and namespace bindings. -/
theorem walk_keys (d : Document) {ids : Location → Nat} (hids : d.Increasing ids) :
    ((d.tree.walk []).Pairwise fun a b => (a.key ids).before (b.key ids)) ∧
    (∀ a ∈ d.tree.walk [], ∀ b ∈ d.tree.walk [],
      (d.tree.before a b ↔ (a.key ids).before (b.key ids)) ∧ (a.key ids = b.key ids ↔ a = b)) ∧
    (∀ p ∈ d.tree.walk [], ∀ m ∈ d.tree.listed p,
      m ∈ d.tree.walk [] ∧ d.tree.parent m = some p) ∧
    (∀ m ∈ d.tree.walk [],
      m = [] ∨ ∃ p ∈ d.tree.walk [], m ∈ d.tree.listed p ∧ d.tree.parent m = some p) ∧
    (∀ m ∈ d.tree.walk [], d.tree.parent m = none ↔ m = []) ∧
    ∀ n ∈ d.tree.walk [], d.tree.isElement n = false →
      d.tree.attributes n = [] ∧ d.tree.namespaces n = [] := by
  refine ⟨walk_keys_pairwise hids .root, ?_, ?_, ?_, ?_, ?_⟩
  · intro a ha b hb
    exact ⟨before_iff_key hids ha hb, eq_of_key hids ha hb, congrArg (Location.key ids)⟩
  · intro p hp m hm
    rw [d.linked.mem_walk] at hp ⊢
    exact ⟨Tree.reaches_of_mem_listed hp hm, d.linked.parent_listed hp hm⟩
  · intro m hm
    simp only [d.linked.mem_walk] at hm ⊢
    exact d.linked.listed_cases hm
  · intro m hm
    cases m with
    | nil => simp [tree, up?]
    | cons k up => simp [tree, up?]
  · intro n hn he
    rw [d.linked.mem_walk] at hn
    exact ⟨d.linked.attributes_other n hn he, d.linked.namespaces_other n hn he⟩

/-- A comment and an element with a binding, an attribute, white space that is no child and a text.
-/
def note : Document :=
  ⟨[.comment "c", .element ⟨none, "note"⟩ [⟨some "p", "urn:p"⟩] [⟨⟨none, "id"⟩, "n"⟩]
    [.text " ", .element ⟨none, "to"⟩ [] [] [.text "x"]]]⟩

/-- The white space has the number that is missing. -/
theorem walk_keys_note :
    (note.tree.walk []).map (Location.key note.number)
        = [⟨0, 0, 0⟩, ⟨1, 0, 0⟩, ⟨2, 0, 0⟩, ⟨2, 1, 0⟩, ⟨2, 2, 0⟩, ⟨4, 0, 0⟩, ⟨5, 0, 0⟩] ∧
      note.Increasing note.number ∧
      (note.tree.walk []).Pairwise fun a b =>
        (a.key note.number).before (b.key note.number) :=
  ⟨by decide +kernel, note.number_increasing, (note.walk_keys note.number_increasing).1⟩

end Document
end XPath.Xml
