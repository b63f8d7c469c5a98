import XPath.Axis
import XPath.Tree

/-!
# Walking along an axis

Every walk starts at a context node and adds the nodes that it meets and `accept` accepts to those
found before.  Walks along a forward axis meet the nodes in document order, walks along a reverse
axis the nearest first.

* `TreeError`: a node that is missing from the children of its parent;
* `Tree.place`: where a node stands among its siblings;
* `Tree.collect`: the walk along any axis.
-/

namespace XPath

/-- Why a walk cannot go on. -/
inductive TreeError
  /-- A node is missing from the children of its parent. -/
  | inconsistent
  deriving DecidableEq, Inhabited

namespace Tree

variable {N : Type} (T : Tree N) (accept : N → Bool)

/-- Adds a node to those found, if it is accepted. -/
def offer (found : Array N) (n : N) : Array N :=
  if accept n then found.push n else found

def offerAll (ns : List N) (found : Array N) : Array N :=
  ns.foldl (offer accept) found

/-! ### Down -/

def collectDescendants (n : N) (found : Array N) : Array N :=
  (T.children n).attach.foldl
    (fun found c => collectDescendants c.1 (offer accept found c.1)) found
termination_by T.height n
decreasing_by exact T.height_lt c.2

def collectSubtree (n : N) (found : Array N) : Array N :=
  collectDescendants T accept n (offer accept found n)

/-- Adds a node and everything below it against document order. -/
def collectSubtreeReversed (n : N) (found : Array N) : Array N :=
  offer accept
    ((T.children n).attach.foldr (fun c found => collectSubtreeReversed c.1 found) found) n
termination_by T.height n
decreasing_by exact T.height_lt c.2

/-! ### Up -/

/-- Adds the nodes above a node, the nearest first. -/
def collectAncestors (n : N) (found : Array N) : Array N :=
  match _h : T.parent n with
  | none => found
  | some p => collectAncestors p (offer accept found p)
termination_by T.depth n
decreasing_by exact T.depth_lt _h

/-! ### Sideways -/

/-- The place of a node among the children of its parent. -/
structure Place (N : Type) where
  /-- The parent. -/
  parent : N
  /-- The children before the node. -/
  earlier : List N
  /-- The children after the node. -/
  later : List N

variable [DecidableEq N]

/-- The place of a node among the children of its parent.  The root, attributes and namespace
bindings have none. -/
def place (n : N) : Except TreeError (Option (Place N)) :=
  if T.isOwned n then .ok none
  else
    match T.parent n with
    | none => .ok none
    | some p =>
      match (T.children p).dropWhile (· ≠ n) with
      | [] => .error .inconsistent
      | _ :: later => .ok (some ⟨p, (T.children p).takeWhile (· ≠ n), later⟩)

theorem parent_of_place {T : Tree N} {n : N} {s : Place N} (h : T.place n = .ok (some s)) :
    T.parent n = some s.parent := by
  unfold place at h
  split at h
  · simp at h
  · split at h
    · simp at h
    · rename_i hp
      split at h
      · simp at h
      · simp only [Except.ok.injEq, Option.some.injEq] at h
        rw [hp, ← h]

/-- Adds the subtrees that lie after a node, going up to the root. -/
def collectAfter (n : N) (found : Array N) : Except TreeError (Array N) :=
  match _h : T.place n with
  | .error e => .error e
  | .ok none => .ok found
  | .ok (some s) =>
    collectAfter s.parent (s.later.foldl (fun found m => collectSubtree T accept m found) found)
termination_by T.depth n
decreasing_by exact T.depth_lt (parent_of_place _h)

/-- Adds the subtrees that lie before a node, the nearest first, going up to the root. -/
def collectBefore (n : N) (found : Array N) : Except TreeError (Array N) :=
  match _h : T.place n with
  | .error e => .error e
  | .ok none => .ok found
  | .ok (some s) =>
    collectBefore s.parent
      (s.earlier.foldr (fun m found => collectSubtreeReversed T accept m found) found)
termination_by T.depth n
decreasing_by exact T.depth_lt (parent_of_place _h)

/-- Adds what follows a node.  The children of an element follow its attributes and namespace
bindings. -/
def collectFollowing (n : N) (found : Array N) : Except TreeError (Array N) :=
  if T.isOwned n then
    match T.parent n with
    | none => .ok found
    | some owner => collectAfter T accept owner (collectDescendants T accept owner found)
  else collectAfter T accept n found

/-- Adds what precedes a node.  The element that an attribute or namespace binding belongs to is an
ancestor, so it is left out. -/
def collectPreceding (n : N) (found : Array N) : Except TreeError (Array N) :=
  if T.isOwned n then
    match T.parent n with
    | none => .ok found
    | some owner => collectBefore T accept owner found
  else collectBefore T accept n found

/-! ### Any axis -/

/-- Adds the nodes along an axis that are accepted. -/
def collect (axis : Axis) (n : N) (found : Array N) : Except TreeError (Array N) :=
  match axis with
  | .self => .ok (offer accept found n)
  | .child => .ok (offerAll accept (T.children n) found)
  | .parent => .ok (offerAll accept (T.parent n).toList found)
  | .ancestor => .ok (collectAncestors T accept n found)
  | .ancestorOrSelf => .ok (collectAncestors T accept n (offer accept found n))
  | .descendant => .ok (collectDescendants T accept n found)
  | .descendantOrSelf => .ok (collectSubtree T accept n found)
  | .attribute => .ok (if T.isElement n then offerAll accept (T.attributes n) found else found)
  | .namespaceNode => .ok (if T.isElement n then offerAll accept (T.namespaces n) found else found)
  | .followingSibling => do
    match ← T.place n with
    | none => .ok found
    | some s => .ok (offerAll accept s.later found)
  | .precedingSibling => do
    match ← T.place n with
    | none => .ok found
    | some s => .ok (offerAll accept s.earlier.reverse found)
  | .following => collectFollowing T accept n found
  | .preceding => collectPreceding T accept n found

/-- The nodes along an axis that are accepted, in the order in which the walk meets them. -/
def along (axis : Axis) (n : N) : Except TreeError (List N) :=
  (collect T accept axis n #[]).map Array.toList

end Tree
end XPath
