import Mathlib.Data.List.TakeWhile
import XPath.Eval
import XPath.Proofs.Outcome
import XPath.Proofs.Tree.Linked
import XPath.Tree.Table

/-!
# Walks along links that disagree

A walk sideways asks for the place of a node among the children of its parent, and it fails where
the node is missing there.  A walk to one side of the whole tree asks so at every node on its way
up.  No other walk asks, so no other walk fails.

* `Tree.Strays`: a climb that comes to a node without its place;
* `collect_eq_error`: the walks that fail;
* `Tree.Owns`: what attributes and namespace bindings need for a climb to get past them;
* `strays_iff`: a climb fails over the node itself or over any node above it;
* `Table.owns_foldl_detach`: the trees that are made by taking nodes out of lists of children;
* `collect_inconsistent`: where walks and steps fail.
-/

namespace XPath
namespace Tree

variable {N : Type} (T : Tree N)

/-- A node has a parent and is missing from its children. -/
def Astray (n : N) : Prop :=
  ∃ p, T.parent n = some p ∧ n ∉ T.children p

/-- The node at which a climb begins: where an attribute or a namespace binding belongs, and any
other node itself. -/
def climber (n : N) : N :=
  if T.isOwned n then (T.parent n).getD n else n

section Walks

variable [DecidableEq N]

/-! ### Places that cannot be found -/

variable {T}

theorem place_owned {n : N} (ho : T.isOwned n) : T.place n = .ok none := by
  unfold place
  rw [if_pos ho]

theorem place_eq_error {n : N} :
    T.place n = .error .inconsistent ↔ T.isOwned n = false ∧ T.Astray n := by
  unfold place
  cases ho : T.isOwned n with
  | true => simp
  | false =>
    cases hp : T.parent n with
    | none => simp [Astray, hp]
    | some p =>
      have hastray : T.Astray n ↔ n ∉ T.children p := by simp [Astray, hp]
      rw [hastray]
      simp only [Bool.false_eq_true, if_false, true_and]
      by_cases hmem : n ∈ T.children p
      · obtain ⟨later, hdrop, -⟩ := takeWhile_append_dropWhile_ne hmem
        rw [hdrop]
        simp [hmem]
      · have hdrop : (T.children p).dropWhile (· ≠ n) = [] :=
          List.dropWhile_eq_nil_iff.2 fun m hm => decide_eq_true fun heq => hmem (heq ▸ hm)
        rw [hdrop]
        simp [hmem]

variable (T)

/-- On the way up from a node, the node itself or one above it has no place though it should. -/
inductive Strays : N → Prop
  | here {n} (h : T.place n = .error .inconsistent) : Strays n
  | up {n s} (h : T.place n = .ok (some s)) (hs : Strays s.parent) : Strays n

/-- Every climb gets to its end or fails on the way. -/
theorem climbs_or_strays (n : N) : (∃ ss, T.Climbs n ss) ∨ T.Strays n := by
  induction hk : T.depth n using Nat.strongRecOn generalizing n with
  | ind k ih =>
    cases hplace : T.place n with
    | error e => exact .inr (.here hplace)
    | ok s =>
      cases s with
      | none => exact .inl ⟨[], .stop hplace⟩
      | some s =>
        have hlt : T.depth s.parent < k := hk ▸ T.depth_lt (parent_of_place hplace)
        rcases ih _ hlt s.parent rfl with ⟨ss, hss⟩ | hs
        · exact .inl ⟨s :: ss, .climb hplace hss⟩
        · exact .inr (.up hplace hs)

/-! ### Walks that fail -/

variable {T} {n : N} {accept : N → Bool}

theorem Strays.collectAfter (h : T.Strays n) :
    ∀ found, collectAfter T accept n found = .error .inconsistent := by
  induction h with
  | here h =>
    intro found
    rw [Tree.collectAfter]
    split <;> simp_all
  | up h _ ih =>
    intro found
    rw [Tree.collectAfter]
    split
    · simp_all
    · simp_all
    · rename_i s hs
      rw [h, Except.ok.injEq, Option.some.injEq] at hs
      exact hs ▸ ih _

theorem Strays.collectBefore (h : T.Strays n) :
    ∀ found, collectBefore T accept n found = .error .inconsistent := by
  induction h with
  | here h =>
    intro found
    rw [Tree.collectBefore]
    split <;> simp_all
  | up h _ ih =>
    intro found
    rw [Tree.collectBefore]
    split
    · simp_all
    · simp_all
    · rename_i s hs
      rw [h, Except.ok.injEq, Option.some.injEq] at hs
      exact hs ▸ ih _

theorem collectAfter_eq_error {found : Array N} :
    collectAfter T accept n found = .error .inconsistent ↔ T.Strays n := by
  refine ⟨fun herror => ?_, fun h => h.collectAfter found⟩
  refine (climbs_or_strays T n).resolve_left ?_
  rintro ⟨ss, hss⟩
  have hok := collectAfter_eq accept hss found
  rw [herror] at hok
  cases hok

theorem collectBefore_eq_error {found : Array N} :
    collectBefore T accept n found = .error .inconsistent ↔ T.Strays n := by
  refine ⟨fun herror => ?_, fun h => h.collectBefore found⟩
  refine (climbs_or_strays T n).resolve_left ?_
  rintro ⟨ss, hss⟩
  have hok := collectBefore_eq accept hss found
  rw [herror] at hok
  cases hok

/-- An attribute or a namespace binding that belongs nowhere has nothing to climb. -/
theorem not_strays_owned (ho : T.isOwned n) : ¬T.Strays n := by
  intro h
  cases h with
  | here h => simp [place_owned ho] at h
  | up h _ => simp [place_owned ho] at h

/-- Which walks fail, whatever they look for and have found before. -/
def Fails (T : Tree N) (n : N) : Axis → Prop
  | .followingSibling | .precedingSibling => T.place n = .error .inconsistent
  | .following | .preceding => T.Strays (T.climber n)
  | _ => False

theorem collect_eq_error {axis : Axis} {found : Array N} :
    collect T accept axis n found = .error .inconsistent ↔ T.Fails n axis := by
  cases axis with
  | followingSibling =>
    rw [collect, Fails]
    cases T.place n with
    | error e => simp [bind, Except.bind]
    | ok s => cases s <;> simp [bind, Except.bind]
  | precedingSibling =>
    rw [collect, Fails]
    cases T.place n with
    | error e => simp [bind, Except.bind]
    | ok s => cases s <;> simp [bind, Except.bind]
  | following =>
    rw [collect, Fails, collectFollowing, climber]
    cases ho : T.isOwned n with
    | false => exact collectAfter_eq_error
    | true =>
      cases T.parent n with
      | none => simpa using not_strays_owned ho
      | some p => exact collectAfter_eq_error
  | preceding =>
    rw [collect, Fails, collectPreceding, climber]
    cases ho : T.isOwned n with
    | false => exact collectBefore_eq_error
    | true =>
      cases T.parent n with
      | none => simpa using not_strays_owned ho
      | some p => exact collectBefore_eq_error
  | _ => simp [collect, Fails]

/-- A step whose walk fails fails with it. -/
theorem select_eq_error {env : Env N} {step : Step Expr} (h : env.tree.Fails n step.axis) :
    select env step n = .error (.tree .inconsistent) := by
  obtain ⟨axis, test, predicates⟩ := step
  have hcollect : collect env.tree (test.accepts env.tree axis) axis n #[] = .error .inconsistent :=
    collect_eq_error.2 h
  rw [select_step, along, hcollect]
  rfl

end Walks

/-! ### Attributes and namespace bindings with their owners -/

/-- Attributes and namespace bindings have a parent and are parents of none. -/
structure Owns : Prop where
  /-- They have a parent. -/
  parent_owned : ∀ n, T.isOwned n → ∃ p, T.parent n = some p
  /-- They are no parents. -/
  parent_not_owned : ∀ n p, T.parent n = some p → T.isOwned p = false

variable {T} {n p : N}

theorem Owns.climber_not_owned (h : T.Owns) (n : N) : T.isOwned (T.climber n) = false := by
  unfold climber
  split
  · rename_i ho
    obtain ⟨p, hp⟩ := h.parent_owned n ho
    rw [hp]
    exact h.parent_not_owned n p hp
  · rename_i ho
    exact Bool.eq_false_iff.2 ho

section Climbs

variable [DecidableEq N]

theorem strays_of_parent (ho : T.isOwned n = false) (hp : T.parent n = some p) (hs : T.Strays p) :
    T.Strays n := by
  cases hplace : T.place n with
  | error e => exact .here hplace
  | ok s =>
    cases s with
    | none =>
      unfold place at hplace
      rw [ho, hp] at hplace
      simp only [Bool.false_eq_true, if_false] at hplace
      split at hplace <;> simp at hplace
    | some s =>
      have hparent := parent_of_place hplace
      rw [hp, Option.some.injEq] at hparent
      exact .up hplace (hparent ▸ hs)

/-- A climb fails exactly if the node at which it begins or one above it is missing from the
children of its parent. -/
theorem Owns.strays_iff (h : T.Owns) (ho : T.isOwned n = false) :
    T.Strays n ↔ ∃ m, (m = n ∨ T.Ancestor m n) ∧ T.Astray m := by
  constructor
  · intro hs
    induction hs with
    | here hplace => exact ⟨_, .inl rfl, (place_eq_error.1 hplace).2⟩
    | up hplace _ ih =>
      have hp := parent_of_place hplace
      obtain ⟨m, hm, hastray⟩ := ih (h.parent_not_owned _ _ hp)
      refine ⟨m, .inr ?_, hastray⟩
      rcases hm with rfl | hm
      · exact .parent hp
      · exact .up hp hm
  · rintro ⟨m, rfl | hm, hastray⟩
    · exact .here (place_eq_error.2 ⟨ho, hastray⟩)
    · induction hm with
      | parent hp =>
        have hop := h.parent_not_owned _ _ hp
        exact strays_of_parent ho hp (.here (place_eq_error.2 ⟨hop, hastray⟩))
      | up hp _ ih => exact strays_of_parent ho hp (ih (h.parent_not_owned _ _ hp))

end Climbs
end Tree

/-! ### Tables -/

namespace Table

variable {t : Table} {id : Nat}

theorem rows_detach (i : Nat) : (t.detach id).rows[i]? =
    t.rows[i]?.map fun r => if t.rows[id]?.bind Row.parent = some i then r.drop id else r := by
  show (t.rows.mapIdx _)[i]? = _
  rw [List.getElem?_mapIdx]

/-- Taking a node out of the children of its parent changes neither kinds nor parents. -/
theorem kind_detach (i : Nat) : (t.detach id).tree.kind i = t.tree.kind i := by
  show (t.detach id).rows[i]?.elim _ _ = t.rows[i]?.elim _ _
  rw [rows_detach]
  cases t.rows[i]? with
  | none => rfl
  | some r =>
    rw [Option.map_some]
    split <;> rfl

theorem parent_detach (i : Nat) : (t.detach id).tree.parent i = t.tree.parent i := by
  show (t.detach id).rows[i]?.bind _ = t.rows[i]?.bind _
  rw [rows_detach]
  cases t.rows[i]? with
  | none => rfl
  | some r =>
    rw [Option.map_some]
    split <;> rfl

theorem owns_detach (h : t.tree.Owns) (id : Nat) : (t.detach id).tree.Owns where
  parent_owned i ho := by
    rw [Tree.isOwned, kind_detach] at ho
    rw [parent_detach]
    exact h.parent_owned i ho
  parent_not_owned i p hp := by
    rw [parent_detach] at hp
    rw [Tree.isOwned, kind_detach]
    exact h.parent_not_owned i p hp

/-- Any number of nodes may be taken out one after another. -/
theorem owns_foldl_detach (h : t.tree.Owns) (ids : List Nat) :
    (ids.foldl Table.detach t).tree.Owns := by
  induction ids generalizing t with
  | nil => exact h
  | cons id ids ih => exact ih (owns_detach h id)

theorem owns_sample : Table.sample.tree.Owns where
  parent_owned i ho := by
    by_cases hi : i < 13
    · have hrows : ∀ i : Fin 13, Table.sample.tree.isOwned i →
          ∃ p ∈ Table.sample.tree.parent i, True := by decide
      obtain ⟨p, hp, -⟩ := hrows ⟨i, hi⟩ ho
      exact ⟨p, hp⟩
    · have hrow : Table.sample.rows[i]? = none := List.getElem?_eq_none (Nat.le_of_not_lt hi)
      have hkind : Table.sample.tree.kind i = .text := by
        show Table.sample.rows[i]?.elim _ _ = _
        rw [hrow]
        rfl
      rw [Tree.isOwned, hkind] at ho
      cases ho
  parent_not_owned i p hp := by
    by_cases hi : i < 13
    · have hrows : ∀ i : Fin 13, ∀ p ∈ Table.sample.tree.parent i,
          Table.sample.tree.isOwned p = false := by decide
      exact hrows ⟨i, hi⟩ p hp
    · have hrow : Table.sample.rows[i]? = none := List.getElem?_eq_none (Nat.le_of_not_lt hi)
      have hparent : Table.sample.tree.parent i = none := by
        show Table.sample.rows[i]?.bind _ = _
        rw [hrow]
        rfl
      rw [hparent] at hp
      cases hp

end Table

/-! ### Where walks fail -/

/-- In a tree whose attributes and namespace bindings have parents and are none, as every tree has
that is made of the sample by taking nodes out of the children of their parents: a walk to the
siblings fails exactly if the node, being neither an attribute nor a namespace binding, is missing
from the children of its parent; a walk to one side of the tree fails exactly if the node at which
its climb begins or one above it is; no other walk fails.  A step fails with the same error if the
walk along its axis does. -/
theorem collect_inconsistent :
    (∀ ids : List Nat, (ids.foldl Table.detach .sample).tree.Owns) ∧
      ∀ {N : Type} [DecidableEq N] (T : Tree N), T.Owns → ∀ n accept found,
        (∀ axis ∈ [Axis.followingSibling, .precedingSibling],
          (T.collect accept axis n found = .error .inconsistent ↔
            T.isOwned n = false ∧ T.Astray n)) ∧
        (∀ axis ∈ [Axis.following, .preceding],
          (T.collect accept axis n found = .error .inconsistent ↔
            ∃ m, (m = T.climber n ∨ T.Ancestor m (T.climber n)) ∧ T.Astray m)) ∧
        (∀ axis ∉ [Axis.followingSibling, .precedingSibling, .following, .preceding],
          ∃ ns, T.collect accept axis n found = .ok ns) ∧
        ∀ (env : Env N) (step : Step Expr), env.tree = T →
          T.collect accept step.axis n found = .error .inconsistent →
          select env step n = .error (.tree .inconsistent) := by
  refine ⟨Table.owns_foldl_detach Table.owns_sample, fun T hT n accept found => ⟨?_, ?_, ?_, ?_⟩⟩
  · intro axis haxis
    rw [Tree.collect_eq_error, ← Tree.place_eq_error]
    rw [List.mem_cons, List.mem_singleton] at haxis
    rcases haxis with rfl | rfl <;> rfl
  · intro axis haxis
    rw [Tree.collect_eq_error, ← hT.strays_iff (hT.climber_not_owned n)]
    rw [List.mem_cons, List.mem_singleton] at haxis
    rcases haxis with rfl | rfl <;> rfl
  · intro axis haxis
    -- there is only one error, and it has no cause along these axes
    have hne : T.collect accept axis n found ≠ .error .inconsistent := by
      rw [Ne, Tree.collect_eq_error]
      cases axis <;> simp_all [Tree.Fails]
    cases hcollect : T.collect accept axis n found with
    | ok ns => exact ⟨ns, rfl⟩
    | error e => exact absurd hcollect hne
  · rintro env step rfl hcollect
    exact Tree.select_eq_error (Tree.collect_eq_error.1 hcollect)

/-- The sample with its element `div` taken out of the children of the root: what follows the text
two levels below that cannot be found, its siblings can, and so can what follows an attribute
elsewhere. -/
theorem collect_inconsistent_div :
    ∃ T, T = ([7].foldl Table.detach .sample).tree ∧ T.Owns ∧
      T.collect (fun _ => true) .following 9 #[] = .error .inconsistent ∧
      T.collect (fun _ => true) .followingSibling 9 #[] = .ok #[] ∧
      T.collect (fun _ => true) .following 3 #[] = .ok #[5, 6, 10, 11, 12] := by
  obtain ⟨howns, hfails⟩ := collect_inconsistent
  obtain ⟨-, hfollowing, -⟩ := hfails _ (howns [7]) 9 (fun _ => true) #[]
  refine ⟨_, rfl, howns [7], (hfollowing .following (by decide)).2 ?_, rfl, by decide +kernel⟩
  exact ⟨7, .inr (.up rfl (.parent rfl)), 0, rfl, by decide⟩

end XPath
