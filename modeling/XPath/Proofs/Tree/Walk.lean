import XPath.Tree.Axes

/-!
# What the walks add

Each walk adds to what was found before the accepted nodes of a list that depends on its start
alone.  Here these lists are defined, without an accumulator, and each walk is shown to add its own.

* `Tree.below`, `Tree.subtree`, `Tree.above`: down and up;
* `Tree.Climbs`: the places of a node and of the nodes above it;
* `Tree.toRight`, `Tree.toLeft`: the subtrees on either side of these places;
* `toList_collectDescendants`, `collectAfter_eq` and their kin: what each walk adds;
* `Tree.Visits`, `visits_descendant` and its kin: the nodes that the walk along an axis comes to;
* `along_descendant`, `along_following` and their kin: what is found along an axis.
-/

namespace XPath
namespace Tree

variable {N : Type} (T : Tree N)

/-! ### The lists -/

def below (n : N) : List N :=
  (T.children n).attach.flatMap fun c => c.1 :: below c.1
termination_by T.height n
decreasing_by exact T.height_lt c.2

def subtree (n : N) : List N :=
  n :: T.below n

theorem below_eq (n : N) : T.below n = (T.children n).flatMap T.subtree := by
  rw [below]
  simp only [List.flatMap_subtype, List.unattach_attach]
  rfl

def above (n : N) : List N :=
  match _h : T.parent n with
  | none => []
  | some p => p :: above p
termination_by T.depth n
decreasing_by exact T.depth_lt _h

theorem above_of_root {n : N} (h : T.parent n = none) : T.above n = [] := by
  rw [above]
  split
  · rfl
  · rename_i hp
    simp [h] at hp

theorem above_of_parent {n p : N} (h : T.parent n = some p) : T.above n = p :: T.above p := by
  rw [above]
  split
  · rename_i hp
    simp [h] at hp
  · rename_i q hq
    rw [h, Option.some.injEq] at hq
    rw [hq]

/-! ### Walks over lists -/

section Folds

variable {α : Type} {f : Array N → α → Array N} {g : α → List N}

/-- A walk that adds a list for each element adds all these lists. -/
theorem toList_foldl (ns : List α)
    (h : ∀ a ∈ ns, ∀ found, (f found a).toList = found.toList ++ g a) :
    ∀ found, (ns.foldl f found).toList = found.toList ++ ns.flatMap g := by
  induction ns with
  | nil =>
    intro found
    simp
  | cons a ns ih =>
    intro found
    have hrest := ih fun b hb => h b (List.mem_cons_of_mem a hb)
    rw [List.foldl_cons, hrest, h a List.mem_cons_self, List.flatMap_cons, List.append_assoc]

theorem toList_foldr (ns : List α)
    (h : ∀ a ∈ ns, ∀ found, (f found a).toList = found.toList ++ g a) (found : Array N) :
    (ns.foldr (fun a found => f found a) found).toList = found.toList ++ ns.reverse.flatMap g := by
  rw [List.foldr_eq_foldl_reverse]
  exact toList_foldl ns.reverse (fun a ha => h a (List.mem_reverse.1 ha)) found

end Folds

/-- A walk that accepts everything leaves nothing out. -/
theorem filter_always (ns : List N) : ns.filter (fun _ => true) = ns :=
  List.filter_eq_self.2 fun _ _ => rfl

variable (accept : N → Bool)

theorem toList_offer (found : Array N) (n : N) :
    (offer accept found n).toList = found.toList ++ [n].filter accept := by
  unfold offer
  cases h : accept n with
  | true => simp [h]
  | false => simp [h]

theorem toList_offerAll (ns : List N) (found : Array N) :
    (offerAll accept ns found).toList = found.toList ++ ns.filter accept := by
  have hlist := toList_foldl (f := offer accept) (g := fun n => [n].filter accept) ns
    (fun n _ found => toList_offer accept found n) found
  rw [offerAll, hlist, ← List.filter_flatMap]
  simp

/-! ### Down and up -/

theorem toList_collectDescendants (n : N) : ∀ found : Array N,
    (collectDescendants T accept n found).toList = found.toList ++ (T.below n).filter accept := by
  induction hk : T.height n using Nat.strongRecOn generalizing n with
  | ind k ih =>
    intro found
    have hstep : ∀ c ∈ T.children n, ∀ found : Array N,
        (collectDescendants T accept c (offer accept found c)).toList
          = found.toList ++ (T.subtree c).filter accept := by
      intro c hc found
      have hlt : T.height c < k := hk ▸ T.height_lt hc
      rw [ih _ hlt c rfl, toList_offer, List.append_assoc, ← List.filter_append]
      rfl
    rw [collectDescendants, List.foldl_subtype (g := fun found c =>
      collectDescendants T accept c (offer accept found c)) (fun _ _ _ => rfl),
      List.unattach_attach, toList_foldl _ hstep, below_eq, List.filter_flatMap]

theorem toList_collectSubtree (n : N) (found : Array N) :
    (collectSubtree T accept n found).toList = found.toList ++ (T.subtree n).filter accept := by
  rw [collectSubtree, toList_collectDescendants, toList_offer, List.append_assoc,
    ← List.filter_append]
  rfl

theorem toList_collectSubtreeReversed (n : N) : ∀ found : Array N,
    (collectSubtreeReversed T accept n found).toList
      = found.toList ++ (T.subtree n).reverse.filter accept := by
  induction hk : T.height n using Nat.strongRecOn generalizing n with
  | ind k ih =>
    intro found
    have hstep : ∀ c ∈ T.children n, ∀ found : Array N,
        (collectSubtreeReversed T accept c found).toList
          = found.toList ++ (T.subtree c).reverse.filter accept := by
      intro c hc found
      have hlt : T.height c < k := hk ▸ T.height_lt hc
      exact ih _ hlt c rfl found
    rw [collectSubtreeReversed, toList_offer, List.foldr_subtype (g := fun c found =>
      collectSubtreeReversed T accept c found) (fun _ _ _ => rfl), List.unattach_attach,
      toList_foldr _ hstep, subtree, List.reverse_cons, List.filter_append, below_eq,
      List.reverse_flatMap, List.filter_flatMap, List.append_assoc]
    rfl

theorem toList_collectAncestors (n : N) : ∀ found : Array N,
    (collectAncestors T accept n found).toList = found.toList ++ (T.above n).filter accept := by
  induction hk : T.depth n using Nat.strongRecOn generalizing n with
  | ind k ih =>
    intro found
    rw [collectAncestors]
    split
    · rename_i hp
      rw [above_of_root T hp]
      simp
    · rename_i p hp
      have hlt : T.depth p < k := hk ▸ T.depth_lt hp
      rw [ih _ hlt p rfl, toList_offer, above_of_parent T hp, List.append_assoc,
        ← List.filter_append]
      rfl

/-! ### Sideways -/

/-- The subtrees to the right of places, in the order of the places. -/
def toRight (ss : List (Place N)) : List N :=
  ss.flatMap fun s => s.later.flatMap T.subtree

/-- The subtrees to the left of places, each against document order. -/
def toLeft (ss : List (Place N)) : List N :=
  ss.flatMap fun s => (s.earlier.flatMap T.subtree).reverse

@[simp] theorem toRight_nil : T.toRight [] = [] := rfl

@[simp] theorem toRight_cons (s : Place N) (ss : List (Place N)) :
    T.toRight (s :: ss) = s.later.flatMap T.subtree ++ T.toRight ss := rfl

@[simp] theorem toLeft_nil : T.toLeft [] = [] := rfl

@[simp] theorem toLeft_cons (s : Place N) (ss : List (Place N)) :
    T.toLeft (s :: ss) = (s.earlier.flatMap T.subtree).reverse ++ T.toLeft ss := rfl

variable [DecidableEq N]

/-- The places of a node and of the nodes above it, as far up as there are places. -/
inductive Climbs : N → List (Place N) → Prop
  | stop {n} (h : T.place n = .ok none) : Climbs n []
  | climb {n s ss} (h : T.place n = .ok (some s)) (up : Climbs s.parent ss) : Climbs n (s :: ss)

variable {T}

theorem collectAfter_eq {n : N} {ss : List (Place N)} (h : T.Climbs n ss) : ∀ found : Array N,
    (collectAfter T accept n found).map Array.toList
      = .ok (found.toList ++ (T.toRight ss).filter accept) := by
  induction h with
  | stop h =>
    intro found
    rw [collectAfter]
    split <;> simp_all [Except.map]
  | @climb n s ss h up ih =>
    intro found
    have hlater := toList_foldl s.later (fun m _ found => toList_collectSubtree T accept m found)
      found
    rw [collectAfter]
    split
    · simp_all
    · simp_all
    · rename_i s' hs
      rw [h, Except.ok.injEq, Option.some.injEq] at hs
      subst hs
      rw [ih, hlater, toRight_cons, List.filter_append, List.filter_flatMap,
        List.append_assoc]

theorem collectBefore_eq {n : N} {ss : List (Place N)} (h : T.Climbs n ss) : ∀ found : Array N,
    (collectBefore T accept n found).map Array.toList
      = .ok (found.toList ++ (T.toLeft ss).filter accept) := by
  induction h with
  | stop h =>
    intro found
    rw [collectBefore]
    split <;> simp_all [Except.map]
  | @climb n s ss h up ih =>
    intro found
    have hearlier := toList_foldr s.earlier
      (fun m _ found => toList_collectSubtreeReversed T accept m found) found
    rw [collectBefore]
    split
    · simp_all
    · simp_all
    · rename_i s' hs
      rw [h, Except.ok.injEq, Option.some.injEq] at hs
      subst hs
      rw [ih, hearlier, toLeft_cons, List.filter_append, List.reverse_flatMap,
        List.filter_flatMap, List.append_assoc]
      rfl

/-! ### Along the axes -/

/-- The nodes that the walk along an axis comes to, whatever it accepts and has found before. -/
def Visits (T : Tree N) (axis : Axis) (n : N) (ns : List N) : Prop :=
  ∀ (accept : N → Bool) (found : Array N), (collect T accept axis n found).map Array.toList
    = .ok (found.toList ++ ns.filter accept)

theorem visits_self (n : N) : T.Visits .self n [n] :=
  fun accept found => congrArg Except.ok (toList_offer accept found n)

theorem visits_child (n : N) : T.Visits .child n (T.children n) :=
  fun accept found => congrArg Except.ok (toList_offerAll accept (T.children n) found)

theorem visits_parent (n : N) : T.Visits .parent n (T.parent n).toList :=
  fun accept found => congrArg Except.ok (toList_offerAll accept (T.parent n).toList found)

theorem visits_descendant (n : N) : T.Visits .descendant n (T.below n) :=
  fun accept found => congrArg Except.ok (toList_collectDescendants T accept n found)

theorem visits_descendantOrSelf (n : N) : T.Visits .descendantOrSelf n (T.subtree n) :=
  fun accept found => congrArg Except.ok (toList_collectSubtree T accept n found)

theorem visits_ancestor (n : N) : T.Visits .ancestor n (T.above n) :=
  fun accept found => congrArg Except.ok (toList_collectAncestors T accept n found)

theorem visits_ancestorOrSelf (n : N) : T.Visits .ancestorOrSelf n (n :: T.above n) := by
  intro accept found
  have habove := toList_collectAncestors T accept n (offer accept found n)
  rw [toList_offer, List.append_assoc, ← List.filter_append] at habove
  exact congrArg Except.ok habove

theorem visits_attribute (n : N) :
    T.Visits .attribute n (if T.isElement n then T.attributes n else []) := by
  intro accept found
  rw [collect]
  split
  · exact congrArg Except.ok (toList_offerAll accept (T.attributes n) found)
  · exact congrArg Except.ok (List.append_nil _).symm

theorem visits_namespace (n : N) :
    T.Visits .namespaceNode n (if T.isElement n then T.namespaces n else []) := by
  intro accept found
  rw [collect]
  split
  · exact congrArg Except.ok (toList_offerAll accept (T.namespaces n) found)
  · exact congrArg Except.ok (List.append_nil _).symm

theorem visits_followingSibling {n : N} {s : Option (Place N)} (h : T.place n = .ok s) :
    T.Visits .followingSibling n (s.elim [] Place.later) := by
  intro accept found
  rw [collect, h]
  cases s with
  | none => exact congrArg Except.ok (List.append_nil _).symm
  | some s => exact congrArg Except.ok (toList_offerAll accept s.later found)

theorem visits_precedingSibling {n : N} {s : Option (Place N)} (h : T.place n = .ok s) :
    T.Visits .precedingSibling n (s.elim [] fun s => s.earlier.reverse) := by
  intro accept found
  rw [collect, h]
  cases s with
  | none => exact congrArg Except.ok (List.append_nil _).symm
  | some s => exact congrArg Except.ok (toList_offerAll accept s.earlier.reverse found)

theorem visits_following {n : N} (ho : T.isOwned n = false) {ss : List (Place N)}
    (h : T.Climbs n ss) : T.Visits .following n (T.toRight ss) := by
  intro accept found
  rw [collect, collectFollowing, ho, if_neg (by decide)]
  exact collectAfter_eq accept h found

theorem visits_preceding {n : N} (ho : T.isOwned n = false) {ss : List (Place N)}
    (h : T.Climbs n ss) : T.Visits .preceding n (T.toLeft ss) := by
  intro accept found
  rw [collect, collectPreceding, ho, if_neg (by decide)]
  exact collectBefore_eq accept h found

/-- The children of an element follow its attributes and namespace bindings. -/
theorem visits_following_owned {n p : N} (ho : T.isOwned n) (hp : T.parent n = some p)
    {ss : List (Place N)} (h : T.Climbs p ss) :
    T.Visits .following n (T.below p ++ T.toRight ss) := by
  intro accept found
  rw [collect, collectFollowing, if_pos ho, hp]
  have hafter := collectAfter_eq accept h (collectDescendants T accept p found)
  rw [toList_collectDescendants, List.append_assoc, ← List.filter_append] at hafter
  exact hafter

/-- The element that an attribute or a namespace binding belongs to does not precede it. -/
theorem visits_preceding_owned {n p : N} (ho : T.isOwned n) (hp : T.parent n = some p)
    {ss : List (Place N)} (h : T.Climbs p ss) : T.Visits .preceding n (T.toLeft ss) := by
  intro accept found
  rw [collect, collectPreceding, if_pos ho, hp]
  exact collectBefore_eq accept h found

/-- Nothing follows an attribute or a namespace binding that belongs nowhere. -/
theorem visits_following_orphan {n : N} (ho : T.isOwned n) (hp : T.parent n = none) :
    T.Visits .following n [] := by
  intro accept found
  rw [collect, collectFollowing, if_pos ho, hp]
  exact congrArg Except.ok (List.append_nil _).symm

theorem visits_preceding_orphan {n : N} (ho : T.isOwned n) (hp : T.parent n = none) :
    T.Visits .preceding n [] := by
  intro accept found
  rw [collect, collectPreceding, if_pos ho, hp]
  exact congrArg Except.ok (List.append_nil _).symm

/-- What is found along an axis is what the walk visits and accepts. -/
theorem Visits.along {axis : Axis} {n : N} {ns : List N} (h : T.Visits axis n ns) :
    T.along accept axis n = .ok (ns.filter accept) := h accept #[]

theorem along_self (n : N) : T.along accept .self n = .ok ([n].filter accept) :=
  (visits_self n).along accept

theorem along_child (n : N) : T.along accept .child n = .ok ((T.children n).filter accept) :=
  (visits_child n).along accept

theorem along_parent (n : N) :
    T.along accept .parent n = .ok ((T.parent n).toList.filter accept) :=
  (visits_parent n).along accept

theorem along_descendant (n : N) :
    T.along accept .descendant n = .ok ((T.below n).filter accept) :=
  (visits_descendant n).along accept

theorem along_descendantOrSelf (n : N) :
    T.along accept .descendantOrSelf n = .ok ((T.subtree n).filter accept) :=
  (visits_descendantOrSelf n).along accept

theorem along_ancestor (n : N) : T.along accept .ancestor n = .ok ((T.above n).filter accept) :=
  (visits_ancestor n).along accept

theorem along_ancestorOrSelf (n : N) :
    T.along accept .ancestorOrSelf n = .ok ((n :: T.above n).filter accept) :=
  (visits_ancestorOrSelf n).along accept

theorem along_attribute (n : N) : T.along accept .attribute n
    = .ok ((if T.isElement n then T.attributes n else []).filter accept) :=
  (visits_attribute n).along accept

theorem along_namespace (n : N) : T.along accept .namespaceNode n
    = .ok ((if T.isElement n then T.namespaces n else []).filter accept) :=
  (visits_namespace n).along accept

theorem along_followingSibling {n : N} {s : Option (Place N)} (h : T.place n = .ok s) :
    T.along accept .followingSibling n = .ok ((s.elim [] Place.later).filter accept) :=
  (visits_followingSibling h).along accept

theorem along_precedingSibling {n : N} {s : Option (Place N)} (h : T.place n = .ok s) :
    T.along accept .precedingSibling n
      = .ok ((s.elim [] fun s => s.earlier.reverse).filter accept) :=
  (visits_precedingSibling h).along accept

theorem along_following {n : N} (ho : T.isOwned n = false) {ss : List (Place N)}
    (h : T.Climbs n ss) : T.along accept .following n = .ok ((T.toRight ss).filter accept) :=
  (visits_following ho h).along accept

theorem along_preceding {n : N} (ho : T.isOwned n = false) {ss : List (Place N)}
    (h : T.Climbs n ss) : T.along accept .preceding n = .ok ((T.toLeft ss).filter accept) :=
  (visits_preceding ho h).along accept

theorem along_following_owned {n p : N} (ho : T.isOwned n) (hp : T.parent n = some p)
    {ss : List (Place N)} (h : T.Climbs p ss) :
    T.along accept .following n = .ok ((T.below p ++ T.toRight ss).filter accept) :=
  (visits_following_owned ho hp h).along accept

theorem along_preceding_owned {n p : N} (ho : T.isOwned n) (hp : T.parent n = some p)
    {ss : List (Place N)} (h : T.Climbs p ss) :
    T.along accept .preceding n = .ok ((T.toLeft ss).filter accept) :=
  (visits_preceding_owned ho hp h).along accept

end Tree
end XPath
