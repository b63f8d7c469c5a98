import XPath.Proofs.Token.Branches
import XPath.Proofs.Token.Lexed

/-!
# The number of moves and of tokens

Every move makes the measure of the state smaller, so a run has no more moves than the measure of
its first state.  The tokens are paid for by the characters: each character that is read pays for
two, and the empty token at the end of a path is paid for when its path begins its trail.

* `State.capacity`: a bound on the tokens that may still be emitted;
* `capacity_le_of_move`: what a move emits is taken from the capacity;
* `Moves`: a number of moves, one after another;
* `tokenize_bounded`: the longest chain of moves from the start of a text, and what it emits.
-/

namespace XPath
namespace Lexer

/-! ### The capacity -/

/-- How many tokens without a character may be emitted in a mode. -/
def Mode.credit : Mode → Nat
  | .trail => 1
  | .operand | .step | .operator => 0

/-- A bound on the tokens that may be emitted from a state on. -/
def State.capacity (s : State) : Nat :=
  2 * s.cursor.rest.length + s.mode.credit

/-- What the move emits, and whatever may be emitted after it, are at most `b` tokens. -/
def Move.Affords (b : Nat) : Move → Prop
  | .emit tokens next => tokens.length + next.capacity ≤ b
  | _ => True

theorem Mode.credit_le (m : Mode) : m.credit ≤ 1 := by
  cases m <;> decide

theorem Move.Affords.mono {m : Move} {a b : Nat} (h : m.Affords a) (hab : a ≤ b) : m.Affords b := by
  cases m with
  | emit tokens next => exact Nat.le_trans h hab
  | stop => trivial
  | fail e => trivial

section Moves

variable {s : State} {tokens : List Token} {mode : Mode} {c : Cursor} {es : List Enclosure}
  {limit n b : Nat}

theorem State.emit_affords (h : tokens.length + (2 * c.rest.length + mode.credit) ≤ b) :
    (s.emit tokens mode c es).Affords b := h

theorem State.continue_affords (h : tokens.length + (2 * c.rest.length + mode.credit) ≤ b) :
    (s.continue tokens mode c).Affords b := h

theorem State.enter_affords {e : Enclosure} (h : tokens.length + 2 * c.rest.length ≤ b) :
    (s.enter limit tokens c e).Affords b := by
  unfold enter
  split
  · trivial
  · exact h

/-- One character pays for one token, whatever the next mode is. -/
theorem State.emit_one_affords {t : Token} (h : c.rest.length < b) :
    (s.emit [t] mode c es).Affords (2 * b) := by
  have := mode.credit_le
  refine State.emit_affords ?_
  rw [List.length_singleton]
  omega

theorem State.continue_one_affords {t : Token} (h : c.rest.length < b) :
    (s.continue [t] mode c).Affords (2 * b) :=
  State.emit_one_affords h

/-- Characters that are read are characters of the text. -/
theorem length_advance_lt (h : c.rest.length ≤ b) (hc : c.rest ≠ []) (hn : n ≠ 0) :
    (c.advance n).rest.length < b := by
  have := List.length_pos_iff.2 hc
  rw [Cursor.length_advance]
  omega

theorem closingMove_affords (h : c.rest.length ≤ b) : (closingMove s c).Affords (2 * b) := by
  have hadvance (hc : c.rest ≠ []) := length_advance_lt h hc Nat.one_ne_zero
  unfold closingMove
  split
  · trivial
  · split
    · rename_i hc
      exact State.emit_one_affords (hadvance (by simp [hc]))
    · trivial
  · split
    · trivial
    · rename_i hc
      exact State.emit_one_affords (hadvance (by simp [hc]))
    · rename_i hc
      exact State.continue_one_affords (hadvance (by simp [hc]))
    · trivial

theorem operandMove_affords (s : State) : (operandMove s).Affords (2 * s.cursor.rest.length) := by
  have hb := s.cursor.length_skipBlank_le
  cases hc : s.cursor.skipBlank.rest with
  | nil =>
    rw [operandMove_nil hc]
    exact closingMove_affords hb
  | cons found rest =>
    have hadvance {n : Nat} (hn : n ≠ 0) := length_advance_lt hb (hc ▸ List.cons_ne_nil _ _) hn
    rw [operandMove_cons hc]
    simp only
    split
    · split
      · exact State.continue_one_affords (hadvance (by decide))
      · have hn := (s.cursor.skipBlank.advance 1).length_skipBlank_le
        have h1 := hadvance Nat.one_ne_zero
        split
        · exact State.continue_one_affords (by omega)
        · -- The slash pays for both tokens: no credit is needed where an operator is expected.
          refine State.continue_affords ?_
          simp only [List.length_cons, List.length_nil, Mode.credit]
          omega
    · split
      · split
        · trivial
        · have h1 := hadvance Nat.one_ne_zero
          exact State.continue_one_affords (by rw [Cursor.length_advance]; omega)
      · split
        · cases hl : literal? s.cursor.skipBlank .string with
          | none => trivial
          | some p => exact State.continue_one_affords (Nat.lt_of_lt_of_le (literal?_length hl) hb)
        · split
          · rename_i hopens
            have hopens : opensNumeral (found :: rest) := hopens
            have hne := (isNumeral_take hopens).ne_nil
            refine State.continue_one_affords (hadvance ?_)
            rw [hc]
            intro hzero
            rw [hzero] at hne
            exact hne rfl
          · split
            · refine State.continue_affords ?_
              simp only [List.length_nil, Mode.credit]
              omega
            · trivial

theorem nodeTypeMove_affords {paren : Cursor} (h : paren.rest.length ≤ b) (hp : paren.rest ≠ []) :
    (nodeTypeMove s c n paren).Affords (2 * b) := by
  have hpos := List.length_pos_iff.2 hp
  have hi := (paren.advance 1).length_skipBlank_le
  rw [Cursor.length_advance] at hi
  rw [nodeTypeMove_eq]
  simp only
  split
  · cases hl : literal? (paren.advance 1).skipBlank .target with
    | none => trivial
    | some p =>
      have h1 := literal?_length hl
      have h2 := p.2.length_skipBlank_le
      simp only
      split
      · -- The parenthesis pays for the name, the quotes pay for the literal.
        refine State.continue_affords ?_
        simp only [List.length_cons, List.length_nil, Mode.credit, Cursor.length_advance]
        omega
      · trivial
  · split
    · exact State.continue_one_affords (by rw [Cursor.length_advance]; omega)
    · trivial

theorem callMove_affords {paren : Cursor} (h : paren.rest.length ≤ b) (hp : paren.rest ≠ []) :
    (callMove s limit c n paren).Affords (2 * b) := by
  have hpos := List.length_pos_iff.2 hp
  have hi := (paren.advance 1).length_skipBlank_le
  rw [Cursor.length_advance] at hi
  rw [callMove_eq]
  simp only
  split
  · rename_i hclose
    have hinside := length_pos_of_startsWith hclose
    refine State.continue_affords ?_
    simp only [List.length_cons, List.length_nil, Mode.credit, Cursor.length_advance]
    omega
  · -- The opening parenthesis pays for the name and for the empty token of the first argument.
    refine State.enter_affords ?_
    simp only [List.length_cons, List.length_nil]
    omega

theorem stepMove_affords (s : State) : (stepMove s limit).Affords (2 * s.cursor.rest.length) := by
  have hb := s.cursor.length_skipBlank_le
  have hw := stepWordLength_le s.cursor.skipBlank.rest
  rw [stepMove_eq]
  simp only
  generalize s.cursor.skipBlank = c at hb hw ⊢
  generalize stepWordLength c.rest = n at hw ⊢
  have hn := (c.advance n).length_skipBlank_le
  rw [Cursor.length_advance] at hn
  generalize (c.advance n).skipBlank = next at hn ⊢
  have hne {q : Char → Bool} (hq : startsWith q next.rest) : next.rest ≠ [] :=
    List.length_pos_iff.1 (length_pos_of_startsWith hq)
  have hnext : next.rest.length ≤ s.cursor.rest.length := by omega
  split
  · rename_i hcolon
    split
    · split
      · exact State.continue_one_affords (length_advance_lt hnext (hne hcolon) (by decide))
      · trivial
    · split
      · trivial
      · exact State.continue_one_affords (length_advance_lt hnext (hne hcolon) (by decide))
  · split
    · rename_i hparen
      split
      · trivial
      · split
        · exact nodeTypeMove_affords hnext (hne hparen)
        · exact callMove_affords hnext (hne hparen)
    · split
      · exact State.continue_one_affords (by omega)
      · split
        · rename_i hsign
          exact State.continue_one_affords (length_advance_lt hnext (hne hsign) (by decide))
        · split <;> trivial

theorem trailMove_affords (s : State) :
    (trailMove s limit).Affords (2 * s.cursor.rest.length + 1) := by
  have hb := s.cursor.length_skipBlank_le
  have hne {q : Char → Bool} (hq : startsWith q s.cursor.skipBlank.rest) :
      s.cursor.skipBlank.rest ≠ [] :=
    List.length_pos_iff.1 (length_pos_of_startsWith hq)
  rw [trailMove_eq]
  simp only
  split
  · rename_i hopen
    have := length_advance_lt hb (hne hopen) Nat.one_ne_zero
    exact State.enter_affords (by rw [List.length_singleton]; omega)
  · split
    · rename_i hslash
      have hadvance {m : Nat} (hm : m ≠ 0) := length_advance_lt hb (hne hslash) hm
      split
      · exact (State.continue_one_affords (hadvance (by decide))).mono (Nat.le_succ _)
      · exact (State.continue_one_affords (hadvance (by decide))).mono (Nat.le_succ _)
    · -- The empty token takes the credit of the trail.
      refine State.continue_affords ?_
      simp only [List.length_singleton, Mode.credit]
      omega

theorem operatorMove_affords (s : State) :
    (operatorMove s).Affords (2 * s.cursor.rest.length) := by
  have hb := s.cursor.length_skipBlank_le
  cases hc : s.cursor.skipBlank.rest with
  | nil =>
    rw [operatorMove_nil hc]
    exact closingMove_affords hb
  | cons found rest =>
    rw [operatorMove_cons hc]
    simp only
    split
    · exact closingMove_affords hb
    · split
      · trivial
      · rename_i hn
        exact State.continue_one_affords (length_advance_lt hb (hc ▸ List.cons_ne_nil _ _) hn)

/-- What a move emits and the capacity behind it are no more than the capacity before it. -/
theorem move_affords (limit : Nat) (s : State) : (move limit s).Affords s.capacity := by
  unfold move State.capacity
  cases s.mode with
  | operand => exact operandMove_affords s
  | step => exact stepMove_affords s
  | trail => exact trailMove_affords s
  | operator => exact operatorMove_affords s

end Moves

theorem capacity_le_of_move {limit : Nat} {s next : State} {tokens : List Token}
    (h : move limit s = .emit tokens next) : tokens.length + next.capacity ≤ s.capacity := by
  have := move_affords limit s
  rwa [h] at this

/-! ### Chains of moves -/

/-- A number of moves, one after another: the tokens that they emit and the state behind them. -/
inductive Moves (limit : Nat) : Nat → State → List Token → State → Prop
  | none {s} : Moves limit 0 s [] s
  | more {k s tokens next ts last} (first : move limit s = .emit tokens next)
    (rest : Moves limit k next ts last) : Moves limit (k + 1) s (tokens ++ ts) last

namespace Moves

variable {limit k j : Nat} {s last t : State} {ts us : List Token}

/-- There are no more moves than the measure of the first state. -/
theorem measure_le (h : Moves limit k s ts last) : k + last.measure ≤ s.measure := by
  induction h with
  | none => exact Nat.le_of_eq (Nat.zero_add _)
  | more first _ ih =>
    have := measure_lt_of_move first
    omega

/-- No more tokens are emitted than the capacity of the first state. -/
theorem capacity_le (h : Moves limit k s ts last) : ts.length + last.capacity ≤ s.capacity := by
  induction h with
  | none => exact Nat.le_of_eq (Nat.zero_add _)
  | more first _ ih =>
    have := capacity_le_of_move first
    rw [List.length_append]
    omega

/-- No chain of moves is longer than one that ends where no move goes on. -/
theorem le_of_ended (h : Moves limit k s ts last)
    (hlast : ∀ tokens next, move limit last ≠ .emit tokens next) (h' : Moves limit j s us t) :
    j ≤ k := by
  induction h generalizing j us t with
  | none =>
    cases h' with
    | none => exact Nat.le_refl 0
    | more first _ => exact absurd first (hlast _ _)
  | more first _ ih =>
    cases h' with
    | none => exact Nat.zero_le _
    | more first' rest' =>
      rw [first] at first'
      cases first'
      exact Nat.succ_le_succ (ih hlast rest')

end Moves

/-- How the moves from a state on end: the text is read, and the run has what they emit, or a move
fails, and so does the run. -/
theorem exists_moves (limit : Nat) (s : State) :
    ∃ k ts last, Moves limit k s ts last ∧
      (move limit last = .stop ∧ run limit s = .ok ts ∨
        ∃ e, move limit last = .fail e ∧ run limit s = .error e) := by
  fun_induction run limit s with
  | case1 s hmove => exact ⟨0, [], s, .none, .inl ⟨hmove, rfl⟩⟩
  | case2 s e hmove => exact ⟨0, [], s, .none, .inr ⟨e, hmove, rfl⟩⟩
  | case3 s tokens next hmove ih =>
    obtain ⟨k, ts, last, hmoves, hend⟩ := ih
    refine ⟨k + 1, tokens ++ ts, last, .more hmove hmoves, ?_⟩
    rcases hend with ⟨hlast, hrun⟩ | ⟨e, hlast, hrun⟩
    · exact .inl ⟨hlast, by rw [hrun]; rfl⟩
    · exact .inr ⟨e, hlast, by rw [hrun]; rfl⟩

end Lexer

/-- Every text is read to its end or to an error by finitely many moves, at most one more than twice
its characters: there is a longest chain of moves, and it ends where the text is read or cannot be.
The tokens that it emits are at most twice the characters, and those of the text if it is read. -/
theorem tokenize_bounded (limit : Nat) (text : String) :
    ∃ k tokens last, Lexer.Moves limit k (Lexer.start text) tokens last ∧
      (∀ j ts s, Lexer.Moves limit j (Lexer.start text) ts s → j ≤ k) ∧
      k ≤ 2 * text.length + 1 ∧ tokens.length ≤ 2 * text.length ∧
      (Lexer.move limit last = .stop ∧ tokenize limit text = .ok tokens ∨
        ∃ e, Lexer.move limit last = .fail e ∧ tokenize limit text = .error e) := by
  obtain ⟨k, tokens, last, hmoves, hend⟩ := Lexer.exists_moves limit (Lexer.start text)
  have hended : ∀ ts s, Lexer.move limit last ≠ .emit ts s := by
    rcases hend with ⟨hlast, -⟩ | ⟨e, hlast, -⟩ <;> simp [hlast]
  have hmeasure : k + last.measure ≤ 2 * text.length + 1 := by
    rw [← String.length_toList]
    exact hmoves.measure_le
  have hcapacity : tokens.length + last.capacity ≤ 2 * text.length := by
    rw [← String.length_toList]
    exact hmoves.capacity_le
  exact ⟨k, tokens, last, hmoves, fun j ts s h => hmoves.le_of_ended hended h,
    by omega, by omega, hend⟩

end XPath
