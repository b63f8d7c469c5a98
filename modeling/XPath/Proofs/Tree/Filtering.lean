import XPath.Proofs.Tree.Inconsistent

/-!
# Filtering on the way and afterwards

A walk leaves out the nodes that it does not accept, but it goes on from them as from all others: to
what is below them, beside them and above them.  Which nodes it comes to, and whether it fails,
depends on its start and its axis alone, so the nodes may as well be tested when the walk is over.

* `visits_or_fails`: every walk visits nodes, or fails, whatever it accepts;
* `Visits.collect_eq`, `Visits.collect_always`: what a walk makes of the nodes it visits;
* `collect_filter`: a walk that tests nodes, by the walk that accepts all;
* `select_filter`: a step that tests nodes, by the step that accepts all.
-/

namespace XPath
namespace Tree

variable {N : Type} [DecidableEq N] {T : Tree N} {n : N}

/-! ### What a walk visits -/

/-- A climb that gets to its end finds what lies on either side of the tree. -/
theorem Climbs.visits_beside {ss : List (Place N)} (h : T.Climbs (T.climber n) ss) :
    (∃ ns, T.Visits .following n ns) ∧ ∃ ns, T.Visits .preceding n ns := by
  unfold climber at h
  cases ho : T.isOwned n with
  | false =>
    rw [ho, if_neg (by decide)] at h
    exact ⟨⟨_, visits_following ho h⟩, _, visits_preceding ho h⟩
  | true =>
    rw [if_pos ho] at h
    cases hp : T.parent n with
    | none => exact ⟨⟨_, visits_following_orphan ho hp⟩, _, visits_preceding_orphan ho hp⟩
    | some p =>
      rw [hp] at h
      exact ⟨⟨_, visits_following_owned ho hp h⟩, _, visits_preceding_owned ho hp h⟩

/-- Every walk comes to a list of nodes or fails, and which of the two, and the list, depends
neither on what it accepts nor on what was found before. -/
theorem visits_or_fails (T : Tree N) (axis : Axis) (n : N) :
    (∃ ns, T.Visits axis n ns) ∨ T.Fails n axis := by
  cases axis with
  | self => exact .inl ⟨_, visits_self n⟩
  | child => exact .inl ⟨_, visits_child n⟩
  | parent => exact .inl ⟨_, visits_parent n⟩
  | ancestor => exact .inl ⟨_, visits_ancestor n⟩
  | ancestorOrSelf => exact .inl ⟨_, visits_ancestorOrSelf n⟩
  | descendant => exact .inl ⟨_, visits_descendant n⟩
  | descendantOrSelf => exact .inl ⟨_, visits_descendantOrSelf n⟩
  | «attribute» => exact .inl ⟨_, visits_attribute n⟩
  | namespaceNode => exact .inl ⟨_, visits_namespace n⟩
  | followingSibling =>
    cases hplace : T.place n with
    | error e => exact .inr hplace
    | ok s => exact .inl ⟨_, visits_followingSibling hplace⟩
  | precedingSibling =>
    cases hplace : T.place n with
    | error e => exact .inr hplace
    | ok s => exact .inl ⟨_, visits_precedingSibling hplace⟩
  | following =>
    rcases climbs_or_strays T (T.climber n) with ⟨ss, hss⟩ | hs
    · exact .inl hss.visits_beside.1
    · exact .inr hs
  | preceding =>
    rcases climbs_or_strays T (T.climber n) with ⟨ss, hss⟩ | hs
    · exact .inl hss.visits_beside.2
    · exact .inr hs

/-! ### Testing afterwards -/

theorem Visits.collect_eq {axis : Axis} {ns : List N} (h : T.Visits axis n ns) (accept : N → Bool)
    (found : Array N) :
    T.collect accept axis n found = .ok (found ++ (ns.filter accept).toArray) := by
  obtain ⟨all, hall, hlist⟩ := map_eq_ok.1 (h accept found)
  have harray : all = found ++ (ns.filter accept).toArray := by
    rw [← Array.toList_inj, hlist, Array.toList_append]
  rw [hall, harray]

/-- The walk that accepts everything lists what it visits. -/
theorem Visits.collect_always {axis : Axis} {ns : List N} (h : T.Visits axis n ns) :
    T.collect (fun _ => true) axis n #[] = .ok ns.toArray := by
  rw [h.collect_eq, filter_always, Array.empty_append]

/-- In any tree, whether or not its links agree, a walk that tests the nodes fails exactly if the
walk that accepts all of them fails, and with the same error.  Otherwise it adds to those found
before, which stay as they are, the nodes on that walk that pass the test, in the same order. -/
theorem collect_filter (T : Tree N) (axis : Axis) (n : N) (accept : N → Bool) (found : Array N) :
    (∀ e, T.collect accept axis n found = .error e ↔
        T.collect (fun _ => true) axis n #[] = .error e) ∧
      T.collect accept axis n found
        = (T.collect (fun _ => true) axis n #[]).map fun all => found ++ all.filter accept := by
  have hmap : T.collect accept axis n found
      = (T.collect (fun _ => true) axis n #[]).map fun all => found ++ all.filter accept := by
    rcases visits_or_fails T axis n with ⟨ns, hns⟩ | hfails
    · rw [hns.collect_eq, hns.collect_always]
      show Except.ok (found ++ (ns.filter accept).toArray) = .ok (found ++ ns.toArray.filter accept)
      rw [List.filter_toArray]
    · rw [collect_eq_error.2 hfails, collect_eq_error.2 hfails]
      rfl
  refine ⟨fun e => ?_, hmap⟩
  rw [hmap, map_eq_error]

/-- The texts of the sample are found below elements that are left out. -/
example : Table.sample.tree.collect (fun n => Table.sample.tree.kind n == .text) .descendant 0 #[3]
    = .ok #[3, 5, 9, 12] := by decide +kernel

end Tree

/-- A step selects what its test and then its predicates leave of all nodes along its axis. -/
theorem select_filter {N : Type} [DecidableEq N] (env : Env N) (axis : Axis) (test : NodeTest)
    (predicates : List Expr) (n : N) :
    select env ⟨axis, test, predicates⟩ n = (do
      let all ← select env ⟨axis, .node, []⟩ n
      filterAll env predicates (all.filter (test.accepts env.tree axis))) := by
  rcases env.tree.visits_or_fails axis n with ⟨ns, hns⟩ | hfails
  · rw [select_step, select_step, hns.along, hns.along]
    show filterAll env predicates (ns.filter (test.accepts env.tree axis))
      = filterAll env predicates ((ns.filter fun _ => true).filter (test.accepts env.tree axis))
    rw [Tree.filter_always]
  · rw [Tree.select_eq_error hfails, Tree.select_eq_error hfails]
    rfl

end XPath
