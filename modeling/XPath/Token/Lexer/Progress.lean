import XPath.Token.Lexer.Move

/-!
# Every move of the lexer makes progress

A move either reads a character or passes to a mode from which the next one must.  The measure of a
state, twice the number of characters left plus the rank of its mode, counts both.

* `Lexer.State.measure`: the measure;
* `Lexer.measure_lt_of_move`: a move that goes on makes it smaller.
-/

namespace XPath
namespace Lexer

/-! ### The measure -/

/-- How many moves without reading a character may follow in a mode. -/
def Mode.rank : Mode → Nat
  | .operand | .trail => 1
  | .step | .operator => 0

/-- A bound on the moves that may follow a state. -/
def State.measure (s : State) : Nat :=
  2 * s.cursor.rest.length + s.mode.rank

/-- A move leads, if anywhere, to a state of measure less than `b`. -/
def Move.Below (b : Nat) : Move → Prop
  | .emit _ next => next.measure < b
  | _ => True

/-! ### Building blocks -/

theorem Mode.rank_le (m : Mode) : m.rank ≤ 1 := by
  cases m <;> decide

/-- A move that reads a character goes below twice the number of characters left before. -/
theorem State.emit_below {s : State} {tokens : List Token} {mode : Mode} {c : Cursor}
    {es : List Enclosure} {b : Nat} (h : c.rest.length < b) :
    (s.emit tokens mode c es).Below (2 * b) := by
  have := mode.rank_le
  simp only [emit, Move.Below, measure]
  omega

theorem State.continue_below {s : State} {tokens : List Token} {mode : Mode} {c : Cursor}
    {b : Nat} (h : c.rest.length < b) : (s.continue tokens mode c).Below (2 * b) :=
  emit_below h

theorem State.enter_below {s : State} {limit : Nat} {tokens : List Token} {c : Cursor}
    {e : Enclosure} {b : Nat} (h : c.rest.length < b) :
    (s.enter limit tokens c e).Below (2 * b) := by
  unfold enter
  split
  · trivial
  · exact emit_below h

theorem Move.Below.mono {m : Move} {a b : Nat} (h : m.Below a) (hab : a ≤ b) : m.Below b := by
  cases m with
  | emit ts n => exact Nat.lt_of_lt_of_le h hab
  | stop => trivial
  | fail e => trivial

theorem stepWordLength_le (cs : List Char) : stepWordLength cs ≤ cs.length := by
  unfold stepWordLength startsWith
  split
  · cases cs <;> simp_all
  · exact (List.takeWhile_sublist isNameChar).length_le

theorem literal?_length {c next : Cursor} {kind : Token.Kind} {t : Token}
    (h : literal? c kind = some (t, next)) : next.rest.length < c.rest.length := by
  unfold literal? at h
  split at h
  · simp at h
  · rename_i heq
    simp only at h
    split at h
    · simp only [Option.some.injEq, Prod.mk.injEq] at h
      rw [← h.2, Cursor.length_advance, heq]
      simp only [List.length_cons]
      omega
    · simp at h

/-! ### The moves of each mode -/

theorem closingMove_below {s : State} {c : Cursor} {b : Nat} (h : c.rest.length ≤ b) :
    (closingMove s c).Below (2 * b) := by
  unfold closingMove
  split
  · trivial
  · split
    · rename_i hc
      exact State.emit_below (by simp [hc] at h ⊢; omega)
    · trivial
  · split
    · trivial
    · rename_i hc
      exact State.emit_below (by simp [hc] at h ⊢; omega)
    · rename_i hc
      exact State.continue_below (by simp [hc] at h ⊢; omega)
    · trivial

theorem operandMove_below (s : State) :
    (operandMove s).Below (2 * s.cursor.rest.length + 1) := by
  have hb := s.cursor.length_skipBlank_le
  unfold operandMove
  simp only
  split
  · exact (closingMove_below hb).mono (by omega)
  · rename_i hc
    exact (State.continue_below (by simp [hc] at hb ⊢; omega)).mono (Nat.le_succ _)
  · rename_i hc
    have hn := (s.cursor.skipBlank.advance 1).length_skipBlank_le
    split <;> refine (State.continue_below ?_).mono (Nat.le_succ _) <;> simp [hc] at hb hn ⊢ <;>
      omega
  · rename_i hc
    split
    · trivial
    · exact (State.continue_below (by simp [hc] at hb ⊢; omega)).mono (Nat.le_succ _)
  · rename_i hc
    split
    · split
      · rename_i hl
        exact (State.continue_below (Nat.lt_of_lt_of_le (literal?_length hl) hb)).mono
          (Nat.le_succ _)
      · trivial
    · split
      · simp only [State.continue, State.emit, Move.Below, State.measure, Mode.rank,
          Cursor.length_advance]
        omega
      · split
        · simp only [State.continue, State.emit, Move.Below, State.measure, Mode.rank]
          omega
        · trivial

theorem nodeTypeMove_below {s : State} {c paren : Cursor} {n b : Nat}
    (h : paren.rest.length ≤ b) (hp : paren.rest ≠ []) :
    (nodeTypeMove s c n paren).Below (2 * b) := by
  have hpos := List.length_pos_iff.2 hp
  have hi := (paren.advance 1).length_skipBlank_le
  rw [Cursor.length_advance] at hi
  unfold nodeTypeMove
  simp only
  split
  · split
    · rename_i t next hl
      have h1 := literal?_length hl
      have h2 := next.length_skipBlank_le
      split
      · exact State.continue_below (by rw [Cursor.length_advance]; omega)
      · trivial
    · trivial
  · split
    · exact State.continue_below (by rw [Cursor.length_advance]; omega)
    · trivial

theorem callMove_below {s : State} {limit : Nat} {c paren : Cursor} {n b : Nat}
    (h : paren.rest.length ≤ b) (hp : paren.rest ≠ []) :
    (callMove s limit c n paren).Below (2 * b) := by
  have hpos := List.length_pos_iff.2 hp
  have hi := (paren.advance 1).length_skipBlank_le
  rw [Cursor.length_advance] at hi
  unfold callMove
  simp only
  split
  · exact State.continue_below (by rw [Cursor.length_advance]; omega)
  · exact State.enter_below (by omega)

theorem stepMove_below (s : State) (limit : Nat) :
    (stepMove s limit).Below (2 * s.cursor.rest.length) := by
  have hb := s.cursor.length_skipBlank_le
  have hw := stepWordLength_le s.cursor.skipBlank.rest
  have hn :=
    (s.cursor.skipBlank.advance (stepWordLength s.cursor.skipBlank.rest)).length_skipBlank_le
  rw [Cursor.length_advance] at hn
  unfold stepMove
  simp only
  split
  · rename_i hc
    split
    · refine State.continue_below ?_
      rw [hc] at hn
      simp only [List.length_cons, Cursor.length_advance, hc] at hn ⊢
      omega
    · trivial
  · rename_i hc
    split
    · trivial
    · refine State.continue_below ?_
      rw [hc] at hn
      simp only [List.length_cons, Cursor.length_advance, hc] at hn ⊢
      omega
  · rename_i hc
    split
    · trivial
    · split
      · exact nodeTypeMove_below (by omega) (by simp [hc])
      · exact callMove_below (by omega) (by simp [hc])
  · split
    · exact State.continue_below (by omega)
    · split
      · rename_i ha
        refine State.continue_below ?_
        rw [Cursor.length_advance]
        have : 0 < (Cursor.skipBlank (s.cursor.skipBlank.advance
            (stepWordLength s.cursor.skipBlank.rest))).rest.length := by
          refine List.length_pos_iff.2 fun he => ?_
          rw [he] at ha
          simp [startsWith] at ha
        omega
      · split <;> trivial

theorem trailMove_below (s : State) (limit : Nat) :
    (trailMove s limit).Below (2 * s.cursor.rest.length + 1) := by
  have hb := s.cursor.length_skipBlank_le
  unfold trailMove
  simp only
  split
  · rename_i hc
    exact (State.enter_below (by simp [hc] at hb ⊢; omega)).mono (Nat.le_succ _)
  · rename_i hc
    exact (State.continue_below (by simp [hc] at hb ⊢; omega)).mono (Nat.le_succ _)
  · rename_i hc
    exact (State.continue_below (by simp [hc] at hb ⊢; omega)).mono (Nat.le_succ _)
  · simp only [State.continue, State.emit, Move.Below, State.measure, Mode.rank]
    omega

theorem operatorMove_below (s : State) :
    (operatorMove s).Below (2 * s.cursor.rest.length) := by
  have hb := s.cursor.length_skipBlank_le
  unfold operatorMove
  simp only
  split
  · exact closingMove_below hb
  · rename_i hc
    split
    · exact closingMove_below hb
    · split
      · trivial
      · have hl := congrArg List.length hc
        rw [List.length_cons] at hl
        exact State.continue_below (by rw [Cursor.length_advance]; omega)

/-- A move that goes on makes the measure of the state smaller. -/
theorem move_below (limit : Nat) (s : State) : (move limit s).Below s.measure := by
  unfold move State.measure
  cases s.mode with
  | operand => exact operandMove_below s
  | step => exact stepMove_below s limit
  | trail => exact trailMove_below s limit
  | operator => exact operatorMove_below s

theorem measure_lt_of_move {limit : Nat} {s next : State} {tokens : List Token}
    (h : move limit s = .emit tokens next) : next.measure < s.measure := by
  have := move_below limit s
  rwa [h] at this

end Lexer
end XPath
