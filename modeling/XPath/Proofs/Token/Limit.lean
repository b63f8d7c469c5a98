import XPath.Proofs.Token.Branches
import XPath.Proofs.Token.Lexed

/-!
# Two limits

The limit on the predicates and argument lists that are open at once forbids moves and changes none.

* `Limited`, `limited_move`: a move under one limit and under another;
* `run_of_le`: what is read under a limit is read under a greater one.
-/

namespace XPath
namespace Lexer

/-- A move under one limit and under another: the two are the same, unless the move opens an
enclosure that one of the limits forbids. -/
inductive Limited (limit limit' : Nat) (s : State) : Move → Move → Prop
  | same {m} : Limited limit limit' s m m
  | forbidden {m} : Limited limit limit' s (.fail (.nestingTooDeep limit)) m
  | cut {tokens next} (depth : s.enclosures.length < limit) (full : limit' ≤ s.enclosures.length)
    (more : next.enclosures.length = s.enclosures.length + 1) :
    Limited limit limit' s (.emit tokens next) (.fail (.nestingTooDeep limit'))

section Moves

variable (limit limit' : Nat) (s : State)

theorem limited_enter {tokens : List Token} {c : Cursor} {e : Enclosure} :
    Limited limit limit' s (s.enter limit tokens c e) (s.enter limit' tokens c e) := by
  unfold State.enter
  by_cases hl : limit ≤ s.enclosures.length
  · rw [if_pos hl]
    exact .forbidden
  · rw [if_neg hl]
    by_cases hl' : limit' ≤ s.enclosures.length
    · rw [if_pos hl']
      exact .cut (Nat.lt_of_not_le hl) hl' rfl
    · rw [if_neg hl']
      exact .same

theorem limited_callMove {c paren : Cursor} {n : Nat} :
    Limited limit limit' s (callMove s limit c n paren) (callMove s limit' c n paren) := by
  rw [callMove_eq, callMove_eq]
  simp only
  split
  · exact .same
  · exact limited_enter limit limit' s

theorem limited_stepMove : Limited limit limit' s (stepMove s limit) (stepMove s limit') := by
  rw [stepMove_eq, stepMove_eq]
  simp only
  split
  · exact .same
  · split
    · split
      · exact .same
      · split
        · exact .same
        · exact limited_callMove limit limit' s
    · exact .same

theorem limited_trailMove : Limited limit limit' s (trailMove s limit) (trailMove s limit') := by
  rw [trailMove_eq, trailMove_eq]
  simp only
  split
  · exact limited_enter limit limit' s
  · exact .same

theorem limited_move : Limited limit limit' s (move limit s) (move limit' s) := by
  unfold move
  cases s.mode with
  | operand => exact .same
  | step => exact limited_stepMove limit limit' s
  | trail => exact limited_trailMove limit limit' s
  | operator => exact .same

/-- Where reading stops under one limit, it stops under the other. -/
theorem move_eq_stop (h : move limit s = .stop) : move limit' s = .stop := by
  have hlimited := limited_move limit limit' s
  rw [h] at hlimited
  generalize move limit' s = m at hlimited
  cases hlimited
  rfl

end Moves

/-- What is read under a limit is read under a greater one. -/
theorem run_of_le {limit limit' : Nat} (h : limit ≤ limit') :
    ∀ s ts, run limit s = .ok ts → run limit' s = .ok ts := by
  refine run_induction (fun s hs => ?_) (fun s tokens next rest hs _ ih => ?_)
  · exact run_eq_ok.2 (.inl ⟨move_eq_stop limit limit' s hs, rfl⟩)
  · have hlimited := limited_move limit limit' s
    rw [hs] at hlimited
    generalize hm : move limit' s = m at hlimited
    cases hlimited with
    | same => exact run_eq_ok.2 (.inr ⟨tokens, next, rest, hm, ih, rfl⟩)
    | cut depth full more => omega

end Lexer
end XPath
