import XPath.Proofs.Outcome
import XPath.Proofs.Token.Words
import XPath.Token.Lexer

/-!
# The lists of tokens that the lexer emits

From a state the lexer can emit certain lists of tokens and no others.  Which ones depends on the
mode and on the brackets that are open, not on the text: the relation `Lexed` says which.

* `Bracket`, `State.brackets`: what the open enclosures are, without their places;
* `Lexed`: the lists of tokens that may follow in a mode inside brackets;
* `OperandEmits`, `operandMove_cases`: what the move at an operand emits;
* `run_induction`: what every move keeps holds of a whole run;
* `lexed_of_run`: every run emits such a list.
-/

namespace XPath
namespace Lexer

/-! ### The relation -/

/-- What an enclosure is, without its place. -/
inductive Bracket
  | predicate
  | call
  deriving DecidableEq

def Enclosure.bracket : Enclosure → Bracket
  | .predicate _ => .predicate
  | .call _ _ => .call

/-- The brackets that are open in a state, the innermost first. -/
def State.brackets (s : State) : List Bracket :=
  s.enclosures.map Enclosure.bracket

/-- Whether the first token is written like the beginning of a location step. -/
def opensStep (ts : List Token) : Bool :=
  ts.head?.any fun t => startsWith isStepStart t.text.toList

def opensNumber (ts : List Token) : Bool :=
  ts.head?.any fun t => opensNumeral t.text.toList

theorem opensStep_cons (t : Token) (ts : List Token) :
    opensStep (t :: ts) = startsWith isStepStart t.text.toList := rfl

/-- The lists of tokens that may follow in a mode inside brackets, at most `limit` of which may be
open at once. -/
inductive Lexed (limit : Nat) : Mode → List Bracket → List Token → Prop
  /-- An expression may end before an operand at the outermost level. -/
  | noOperand : Lexed limit .operand [] []
  | rootDescent {es ts o} (rest : Lexed limit .step es ts) :
    Lexed limit .operand es (⟨.rootDescent, "//", o⟩ :: ts)
  | rootSlash {es ts o} (opens : opensStep ts) (rest : Lexed limit .step es ts) :
    Lexed limit .operand es (⟨.rootSlash, "/", o⟩ :: ts)
  /-- A slash alone is a path only where no step can be read behind it. -/
  | root {es ts o o'} (opens : opensStep ts = false) (rest : Lexed limit .operator es ts) :
    Lexed limit .operand es (⟨.rootSlash, "/", o⟩ :: ⟨.pathEnd, "", o'⟩ :: ts)
  | variableName {es ts s o} (word : IsVariableName s.toList) (rest : Lexed limit .trail es ts) :
    Lexed limit .operand es (⟨.variable, s, o⟩ :: ts)
  | string {es ts s o} (word : IsLiteral s.toList) (rest : Lexed limit .operator es ts) :
    Lexed limit .operand es (⟨.string, s, o⟩ :: ts)
  | number {es ts s o} (word : IsNumeral s.toList) (rest : Lexed limit .operator es ts) :
    Lexed limit .operand es (⟨.number, s, o⟩ :: ts)
  /-- A path without a slash in front begins like a step and not like a number. -/
  | path {es ts} (opens : opensStep ts) (noNumber : opensNumber ts = false)
    (rest : Lexed limit .step es ts) : Lexed limit .operand es ts
  | axis {es ts o} (a : Axis) (rest : Lexed limit .step es ts) :
    Lexed limit .step es (⟨.axis, a.name, o⟩ :: ts)
  | nameSpace {es ts s o} (word : IsWord s.toList) (rest : Lexed limit .step es ts) :
    Lexed limit .step es (⟨.nameSpace, s, o⟩ :: ts)
  | attributeSign {es ts o} (rest : Lexed limit .step es ts) :
    Lexed limit .step es (⟨.attributeSign, "@", o⟩ :: ts)
  | name {es ts s o} (word : IsStepWord s.toList) (rest : Lexed limit .trail es ts) :
    Lexed limit .step es (⟨.name, s, o⟩ :: ts)
  | nodeType {es ts s o} (word : s ∈ nodeTypes) (rest : Lexed limit .trail es ts) :
    Lexed limit .step es (⟨.nodeType, s, o⟩ :: ts)
  | target {es ts s o o'} (word : IsLiteral s.toList) (rest : Lexed limit .trail es ts) :
    Lexed limit .step es (⟨.nodeType, targetedNodeType, o⟩ :: ⟨.target, s, o'⟩ :: ts)
  | emptyCall {es ts s o o'} (word : IsWord s.toList) (other : s ∉ nodeTypes)
    (rest : Lexed limit .trail es ts) :
    Lexed limit .step es (⟨.call, s, o⟩ :: ⟨.callEnd, ")", o'⟩ :: ts)
  | call {es ts s o o'} (word : IsWord s.toList) (other : s ∉ nodeTypes)
    (depth : es.length < limit) (rest : Lexed limit .operand (.call :: es) ts) :
    Lexed limit .step es (⟨.call, s, o⟩ :: ⟨.argument, "", o'⟩ :: ts)
  | predicateStart {es ts o} (depth : es.length < limit)
    (rest : Lexed limit .operand (.predicate :: es) ts) :
    Lexed limit .trail es (⟨.predicateStart, "[", o⟩ :: ts)
  | slash {es ts o} (rest : Lexed limit .step es ts) :
    Lexed limit .trail es (⟨.slash, "/", o⟩ :: ts)
  | descent {es ts o} (rest : Lexed limit .step es ts) :
    Lexed limit .trail es (⟨.descent, "//", o⟩ :: ts)
  | pathEnd {es ts o} (rest : Lexed limit .operator es ts) :
    Lexed limit .trail es (⟨.pathEnd, "", o⟩ :: ts)
  /-- An expression ends at the outermost level where the text does. -/
  | noOperator : Lexed limit .operator [] []
  | predicateEnd {es ts o} (rest : Lexed limit .trail es ts) :
    Lexed limit .operator (.predicate :: es) (⟨.predicateEnd, "]", o⟩ :: ts)
  | callEnd {es ts o} (rest : Lexed limit .trail es ts) :
    Lexed limit .operator (.call :: es) (⟨.callEnd, ")", o⟩ :: ts)
  | argument {es ts o} (rest : Lexed limit .operand (.call :: es) ts) :
    Lexed limit .operator (.call :: es) (⟨.argument, ",", o⟩ :: ts)
  | operator {es ts o} (op : Operator) (rest : Lexed limit .operand es ts) :
    Lexed limit .operator es (⟨.operator, op.text, o⟩ :: ts)

/-! ### Moves that go on -/

@[simp] theorem State.emit_eq_emit {s next : State} {tokens ts : List Token} {mode : Mode}
    {c : Cursor} {es : List Enclosure} :
    s.emit tokens mode c es = .emit ts next ↔
      ts = tokens ∧ next = ⟨mode, c, es, tokens.getLast?.or s.last⟩ := by
  simp only [emit, Move.emit.injEq]
  exact ⟨fun h => ⟨h.1.symm, h.2.symm⟩, fun h => ⟨h.1.symm, h.2.symm⟩⟩

@[simp] theorem State.continue_eq_emit {s next : State} {tokens ts : List Token} {mode : Mode}
    {c : Cursor} :
    s.continue tokens mode c = .emit ts next ↔
      ts = tokens ∧ next = ⟨mode, c, s.enclosures, tokens.getLast?.or s.last⟩ :=
  emit_eq_emit

@[simp] theorem State.enter_eq_emit {s next : State} {limit : Nat} {tokens ts : List Token}
    {c : Cursor} {e : Enclosure} :
    s.enter limit tokens c e = .emit ts next ↔
      s.enclosures.length < limit ∧ ts = tokens ∧
        next = ⟨.operand, c, e :: s.enclosures, tokens.getLast?.or s.last⟩ := by
  unfold enter
  split
  · rename_i h
    simp only [reduceCtorEq, false_iff, not_and]
    omega
  · rename_i h
    rw [emit_eq_emit]
    exact ⟨fun h' => ⟨by omega, h'⟩, fun h' => h'.2⟩

/-! ### What a move emits -/

/-- The first token is made of the first characters, and of one of them at least. -/
def Heads (cs : List Char) (ts : List Token) : Prop :=
  ∃ t rest n, ts = t :: rest ∧ n ≠ 0 ∧ t.text.toList = cs.take n

theorem Heads.append {cs : List Char} {ts : List Token} (h : Heads cs ts) (us : List Token) :
    Heads cs (ts ++ us) := by
  obtain ⟨t, rest, n, rfl, hn, ht⟩ := h
  exact ⟨t, rest ++ us, n, rfl, hn, ht⟩

theorem Heads.opensStep {cs : List Char} {ts : List Token} (h : Heads cs ts) :
    opensStep ts = startsWith isStepStart cs := by
  obtain ⟨t, rest, n, rfl, hn, ht⟩ := h
  show startsWith isStepStart t.text.toList = _
  rw [ht, startsWith_take cs hn]

theorem Heads.opensNumber_eq_false {cs : List Char} {ts : List Token} (h : Heads cs ts)
    (hcs : opensNumeral cs = false) : opensNumber ts = false := by
  obtain ⟨t, rest, n, rfl, hn, ht⟩ := h
  obtain ⟨m, rfl⟩ := Nat.exists_eq_succ_of_ne_zero hn
  show opensNumeral t.text.toList = false
  rw [ht]
  cases cs with
  | nil => rfl
  | cons c cs =>
    rw [opensNumeral, Bool.or_eq_false_iff] at hcs
    rw [List.take_succ_cons, opensNumeral, hcs.1, Bool.false_or]
    by_cases hm : m = 0
    · simp [hm]
    · rw [startsWith_take cs hm, hcs.2]

/-- A token cut off at the cursor. -/
theorem heads_token (c : Cursor) (kind : Token.Kind) {n : Nat} (hn : n ≠ 0) (ts : List Token) :
    Heads c.rest (c.token kind n :: ts) :=
  ⟨c.token kind n, ts, n, rfl, hn, by simp [Cursor.token]⟩

theorem token_eq_of_text {c : Cursor} {kind kind' : Token.Kind} {n : Nat} {s : String}
    (h : (c.token kind' n).text = s) : c.token kind n = ⟨kind, s, c.offset⟩ :=
  congrArg (fun text => (⟨kind, text, c.offset⟩ : Token)) h

theorem token_one {c : Cursor} {kind : Token.Kind} {d : Char} {cs : List Char}
    (h : c.rest = d :: cs) : c.token kind 1 = ⟨kind, String.ofList [d], c.offset⟩ := by
  rw [Cursor.token, h]
  rfl

theorem token_two {c : Cursor} {kind : Token.Kind} {d e : Char} {cs : List Char}
    (h : c.rest = d :: e :: cs) : c.token kind 2 = ⟨kind, String.ofList [d, e], c.offset⟩ := by
  rw [Cursor.token, h]
  rfl

theorem name_of_ofName? {s : String} {a : Axis} (h : Axis.ofName? s = some a) : s = a.name := by
  have := List.find?_some h
  exact (eq_of_beq this).symm

theorem nodeTypeMove_lexed {limit : Nat} {s next : State} {c paren : Cursor} {n : Nat}
    {tokens : List Token} (h : nodeTypeMove s c n paren = .emit tokens next)
    (hn : (c.token .nodeType n).text ∈ nodeTypes) (hn0 : n ≠ 0) :
    Heads c.rest tokens ∧ ∀ ts, Lexed limit next.mode next.brackets ts →
      Lexed limit .step s.brackets (tokens ++ ts) := by
  unfold nodeTypeMove at h
  simp only at h
  split at h
  · rename_i htarget
    split at h
    · rename_i t next' hl
      split at h
      · obtain ⟨rfl, rfl⟩ := State.continue_eq_emit.1 h
        refine ⟨heads_token c _ hn0 _, fun ts hts => ?_⟩
        obtain ⟨hk, hw⟩ := isLiteral_of_literal? hl htarget.2
        obtain ⟨kind, text, offset⟩ := t
        subst hk
        rw [token_eq_of_text htarget.1]
        exact .target hw hts
      · simp at h
    · simp at h
  · split at h
    · obtain ⟨rfl, rfl⟩ := State.continue_eq_emit.1 h
      exact ⟨heads_token c _ hn0 _, fun ts hts => .nodeType hn hts⟩
    · simp at h

theorem callMove_lexed {limit : Nat} {s next : State} {c paren : Cursor} {n : Nat}
    {tokens : List Token} (h : callMove s limit c n paren = .emit tokens next)
    (hw : IsWord (c.rest.take n)) (hn : (c.token .call n).text ∉ nodeTypes) (hn0 : n ≠ 0) :
    Heads c.rest tokens ∧ ∀ ts, Lexed limit next.mode next.brackets ts →
      Lexed limit .step s.brackets (tokens ++ ts) := by
  have hw : IsWord (c.token .call n).text.toList := by simpa [Cursor.token] using hw
  unfold callMove at h
  simp only at h
  split at h
  · rename_i hc
    obtain ⟨rfl, rfl⟩ := State.continue_eq_emit.1 h
    refine ⟨heads_token c _ hn0 _, fun ts hts => ?_⟩
    rw [token_one hc]
    exact .emptyCall hw hn hts
  · obtain ⟨hd, rfl, rfl⟩ := State.enter_eq_emit.1 h
    refine ⟨heads_token c _ hn0 _, fun ts hts => ?_⟩
    exact .call hw hn (by rwa [State.brackets, List.length_map]) hts

theorem stepMove_lexed {limit : Nat} {s next : State} {tokens : List Token}
    (h : stepMove s limit = .emit tokens next) :
    Heads (Text.trimStart s.cursor.rest) tokens ∧ ∀ ts, Lexed limit next.mode next.brackets ts →
      Lexed limit .step s.brackets (tokens ++ ts) := by
  have hblank := startsWith_isBlank_trimStart s.cursor.rest
  rw [← rest_skipBlank] at hblank ⊢
  unfold stepMove at h
  simp only at h
  generalize s.cursor.skipBlank = c at h hblank ⊢
  generalize hn : stepWordLength c.rest = n at h
  -- the characters in front are those of a step, and those of a name unless they are a star
  have hword (hn0 : n ≠ 0) : IsStepWord (c.rest.take n) := by
    rw [← hn]
    exact isStepWord_take (by rwa [hn]) hblank
  have hplain (hn0 : n ≠ 0) (hs : (c.token .name n).text ≠ "*") : IsWord (c.rest.take n) := by
    refine (hword hn0).resolve_right fun hs' => hs ?_
    show String.ofList (c.rest.take n) = "*"
    rw [hs']
  split at h
  · split at h
    · rename_i ha
      obtain ⟨rfl, rfl⟩ := State.continue_eq_emit.1 h
      -- no axis has an empty name
      obtain ⟨a, ha⟩ := Option.isSome_iff_exists.1 ha
      have ha := name_of_ofName? ha
      have hn0 : n ≠ 0 := by
        rintro rfl
        cases a <;> simp [Cursor.token, Axis.name] at ha
      refine ⟨heads_token c _ hn0 _, fun ts hts => ?_⟩
      rw [token_eq_of_text ha]
      exact .axis a hts
    · simp at h
  · split at h
    · simp at h
    · rename_i hs
      obtain ⟨rfl, rfl⟩ := State.continue_eq_emit.1 h
      obtain ⟨hn0, hs⟩ := not_or.1 hs
      exact ⟨heads_token c _ hn0 _, fun ts hts =>
        .nameSpace (by simpa [Cursor.token] using hplain hn0 hs) hts⟩
  · split at h
    · simp at h
    · rename_i hs
      obtain ⟨hn0, hs⟩ := not_or.1 hs
      split at h
      · rename_i hty
        exact nodeTypeMove_lexed h hty hn0
      · rename_i hty
        exact callMove_lexed h (hplain hn0 hs) hty hn0
  · split at h
    · rename_i hn0
      obtain ⟨rfl, rfl⟩ := State.continue_eq_emit.1 h
      exact ⟨heads_token c _ hn0 _, fun ts hts =>
        .name (by simpa [Cursor.token] using hword hn0) hts⟩
    · split at h
      · rename_i hn0 hsign
        obtain ⟨rfl, rfl⟩ := State.continue_eq_emit.1 h
        have hn0 : n = 0 := Decidable.not_not.1 hn0
        subst hn0
        -- no character is passed in front of the sign
        have hrest : (c.advance 0).skipBlank.rest = c.rest := by
          rw [rest_skipBlank, rest_advance, List.drop_zero, trimStart_eq_self hblank]
        rw [← hrest]
        refine ⟨heads_token _ _ Nat.one_ne_zero _, fun ts hts => ?_⟩
        obtain ⟨r, hr⟩ := exists_cons_of_startsWith hsign
        rw [token_one hr]
        exact .attributeSign hts
      · split at h <;> simp at h

theorem trailMove_lexed {limit : Nat} {s next : State} {tokens : List Token}
    (h : trailMove s limit = .emit tokens next) {ts : List Token}
    (hts : Lexed limit next.mode next.brackets ts) :
    Lexed limit .trail s.brackets (tokens ++ ts) := by
  unfold trailMove at h
  simp only at h
  split at h
  · rename_i hc
    obtain ⟨hd, rfl, rfl⟩ := State.enter_eq_emit.1 h
    rw [token_one hc]
    exact .predicateStart (by rwa [State.brackets, List.length_map]) hts
  · rename_i hc
    obtain ⟨rfl, rfl⟩ := State.continue_eq_emit.1 h
    rw [token_two hc]
    exact .descent hts
  · rename_i hc
    obtain ⟨rfl, rfl⟩ := State.continue_eq_emit.1 h
    rw [token_one hc]
    exact .slash hts
  · obtain ⟨rfl, rfl⟩ := State.continue_eq_emit.1 h
    exact .pathEnd hts

theorem closingMove_lexed {limit : Nat} {s next : State} {c : Cursor} {tokens : List Token}
    (h : closingMove s c = .emit tokens next) :
    Heads c.rest tokens ∧ ∀ ts, Lexed limit next.mode next.brackets ts →
      Lexed limit .operator s.brackets (tokens ++ ts) := by
  unfold closingMove at h
  split at h
  · simp at h
  · rename_i hes
    split at h
    · rename_i hc
      obtain ⟨rfl, rfl⟩ := State.emit_eq_emit.1 h
      refine ⟨heads_token c _ Nat.one_ne_zero _, fun ts hts => ?_⟩
      rw [token_one hc, State.brackets, hes]
      exact .predicateEnd hts
    · simp at h
  · rename_i hes
    split at h
    · simp at h
    · rename_i hc
      obtain ⟨rfl, rfl⟩ := State.emit_eq_emit.1 h
      refine ⟨heads_token c _ Nat.one_ne_zero _, fun ts hts => ?_⟩
      rw [token_one hc, State.brackets, hes]
      exact .callEnd hts
    · rename_i hc
      obtain ⟨rfl, rfl⟩ := State.continue_eq_emit.1 h
      refine ⟨heads_token c _ Nat.one_ne_zero _, fun ts hts => ?_⟩
      rw [State.brackets, hes] at hts
      rw [token_one hc, State.brackets, hes]
      exact .argument hts
    · simp at h

/-- At the end of the text no enclosure is closed and no argument begins. -/
theorem closingMove_ne_emit {s next : State} {c : Cursor} {tokens : List Token}
    (hc : c.rest = []) : closingMove s c ≠ .emit tokens next := by
  unfold closingMove
  rw [hc]
  split <;> simp

theorem operatorMove_lexed (limit : Nat) {s next : State} {tokens : List Token}
    (h : operatorMove s = .emit tokens next) :
    Heads (Text.trimStart s.cursor.rest) tokens ∧ ∀ ts, Lexed limit next.mode next.brackets ts →
      Lexed limit .operator s.brackets (tokens ++ ts) := by
  unfold operatorMove at h
  simp only at h
  split at h
  · exact closingMove_lexed h
  · split at h
    · exact closingMove_lexed h
    · split at h
      · simp at h
      · rename_i hn
        obtain ⟨rfl, rfl⟩ := State.continue_eq_emit.1 h
        refine ⟨heads_token s.cursor.skipBlank _ hn _, fun ts hts => ?_⟩
        obtain ⟨op, hop⟩ := exists_operator_of_operatorLength hn
        have ht : s.cursor.skipBlank.token .operator (operatorLength s.cursor.skipBlank.rest)
            = ⟨.operator, op.text, s.cursor.skipBlank.offset⟩ := by
          rw [Cursor.token, hop, String.ofList_toList]
        rw [ht]
        exact .operator op hts

/-- What the move at an operand emits, the mode in which reading goes on, and the characters that
are left behind white space. -/
inductive OperandEmits : List Token → Mode → List Char → Prop
  | rootDescent {cs o} : OperandEmits [⟨.rootDescent, "//", o⟩] .step cs
  | rootSlash {cs o} (opens : startsWith isStepStart cs) :
    OperandEmits [⟨.rootSlash, "/", o⟩] .step cs
  | root {cs o o'} (alone : startsWith isStepStart cs = false) :
    OperandEmits [⟨.rootSlash, "/", o⟩, ⟨.pathEnd, "", o'⟩] .operator cs
  | variableName {cs s o} (word : IsVariableName s.toList) :
    OperandEmits [⟨.variable, s, o⟩] .trail cs
  | string {cs s o} (word : IsLiteral s.toList) : OperandEmits [⟨.string, s, o⟩] .operator cs
  | number {cs s o} (word : IsNumeral s.toList) : OperandEmits [⟨.number, s, o⟩] .operator cs
  | path {cs} (opens : startsWith isStepStart cs) (noNumber : opensNumeral cs = false) :
    OperandEmits [] .step cs

/-- The move at an operand does this inside the same enclosures, if it emits anything. -/
theorem operandMove_cases {s next : State} {tokens : List Token}
    (h : operandMove s = .emit tokens next) :
    next.enclosures = s.enclosures ∧
      OperandEmits tokens next.mode (Text.trimStart next.cursor.rest) := by
  have hblank := startsWith_isBlank_trimStart s.cursor.rest
  rw [← rest_skipBlank] at hblank
  unfold operandMove at h
  simp only at h
  generalize s.cursor.skipBlank = c at h hblank
  split at h
  · rename_i hc
    -- at the end of the text nothing is closed
    exact absurd h (closingMove_ne_emit hc)
  · rename_i hc
    obtain ⟨rfl, rfl⟩ := State.continue_eq_emit.1 h
    rw [token_two hc]
    exact ⟨rfl, .rootDescent⟩
  · rename_i hc
    split at h
    · rename_i hs
      obtain ⟨rfl, rfl⟩ := State.continue_eq_emit.1 h
      rw [token_one hc]
      exact ⟨rfl, .rootSlash (by simpa using hs)⟩
    · rename_i hs
      obtain ⟨rfl, rfl⟩ := State.continue_eq_emit.1 h
      rw [token_one hc]
      exact ⟨rfl, .root (by simpa using hs)⟩
  · split at h
    · simp at h
    · rename_i hn
      obtain ⟨rfl, rfl⟩ := State.continue_eq_emit.1 h
      refine ⟨rfl, .variableName ?_⟩
      rw [String.toList_ofList]
      exact isVariableName_take hn
  · rename_i found rest hne1 hne2 hne3 hc
    split at h
    · rename_i hq
      split at h
      · rename_i t next' hl
        obtain ⟨rfl, rfl⟩ := State.continue_eq_emit.1 h
        obtain ⟨hk, hw⟩ := isLiteral_of_literal? hl (by rw [hc]; exact hq)
        obtain ⟨kind, text, offset⟩ := t
        subst hk
        exact ⟨rfl, .string hw⟩
      · simp at h
    · split at h
      · rename_i hd
        obtain ⟨rfl, rfl⟩ := State.continue_eq_emit.1 h
        refine ⟨rfl, .number ?_⟩
        rw [String.toList_ofList]
        exact isNumeral_take (by rw [hc]; exact hd)
      · rename_i hd
        split at h
        · rename_i hs
          obtain ⟨rfl, rfl⟩ := State.continue_eq_emit.1 h
          -- nothing is emitted, and the step is read from the same place on
          refine ⟨rfl, .path ?_ ?_⟩
          · rw [trimStart_eq_self hblank, hc]
            exact hs
          · rw [trimStart_eq_self hblank, hc, opensNumeral]
            exact Bool.eq_false_iff.2 hd
        · simp at h

/-! ### Whole runs -/

/-- A run stops at once, or it goes on with the run from the next state. -/
theorem run_eq_ok {limit : Nat} {s : State} {ts : List Token} :
    run limit s = .ok ts ↔ (move limit s = .stop ∧ ts = []) ∨
      ∃ tokens next rest, move limit s = .emit tokens next ∧ run limit next = .ok rest ∧
        ts = tokens ++ rest := by
  rw [run]
  split
  · rename_i h
    simp [h, eq_comm]
  · rename_i h
    simp [h]
  · rename_i tokens next h
    simp only [h, reduceCtorEq, false_and, false_or, Move.emit.injEq, map_eq_ok]
    constructor
    · rintro ⟨rest, hr, rfl⟩
      exact ⟨tokens, next, rest, ⟨rfl, rfl⟩, hr, rfl⟩
    · rintro ⟨_, _, rest, ⟨rfl, rfl⟩, hr, rfl⟩
      exact ⟨rest, hr, rfl⟩

/-- What holds where a run stops, and before a move if it holds after it, holds of every run. -/
theorem run_induction {limit : Nat} {motive : State → List Token → Prop}
    (stop : ∀ s, move limit s = .stop → motive s [])
    (emit : ∀ s tokens next rest, move limit s = .emit tokens next → run limit next = .ok rest →
      motive next rest → motive s (tokens ++ rest)) :
    ∀ s ts, run limit s = .ok ts → motive s ts := by
  intro s
  induction hm : s.measure using Nat.strongRecOn generalizing s with
  | ind n ih =>
    intro ts h
    rcases run_eq_ok.1 h with ⟨hs, rfl⟩ | ⟨tokens, next, rest, hs, hr, rfl⟩
    · exact stop s hs
    · have hlt : next.measure < n := hm ▸ measure_lt_of_move hs
      exact emit s tokens next rest hs hr (ih _ hlt next rfl rest hr)

theorem closingMove_eq_stop {s : State} {c : Cursor} :
    closingMove s c = .stop ↔ s.enclosures = [] := by
  unfold closingMove
  split
  · rename_i h
    simp [h]
  · rename_i h
    split <;> simp [h, State.emit]
  · rename_i h
    split <;> simp [h, State.continue, State.emit]

theorem stepMove_ne_stop (s : State) (limit : Nat) : stepMove s limit ≠ .stop := by
  unfold stepMove nodeTypeMove callMove State.enter State.continue State.emit
  intro h
  simp only at h
  repeat' split at h
  all_goals simp at h

theorem trailMove_ne_stop (s : State) (limit : Nat) : trailMove s limit ≠ .stop := by
  unfold trailMove State.enter State.continue State.emit
  intro h
  simp only at h
  repeat' split at h
  all_goals simp at h

theorem operandMove_eq_stop {s : State} (h : operandMove s = .stop) : s.enclosures = [] := by
  unfold operandMove State.continue State.emit at h
  simp only at h
  split at h
  · exact closingMove_eq_stop.1 h
  all_goals repeat' split at h
  all_goals simp at h

theorem operatorMove_eq_stop {s : State} (h : operatorMove s = .stop) : s.enclosures = [] := by
  unfold operatorMove State.continue State.emit at h
  simp only at h
  split at h
  · exact closingMove_eq_stop.1 h
  · split at h
    · exact closingMove_eq_stop.1 h
    · split at h <;> simp at h

/-- Reading stops only between operands and operators, and only where nothing is open. -/
theorem mode_of_stop {limit : Nat} {s : State} (h : move limit s = .stop) :
    (s.mode = .operand ∨ s.mode = .operator) ∧ s.brackets = [] := by
  unfold move at h
  unfold State.brackets
  split at h
  · rename_i hm
    exact ⟨.inl hm, by rw [operandMove_eq_stop h]; rfl⟩
  · exact absurd h (stepMove_ne_stop s limit)
  · exact absurd h (trailMove_ne_stop s limit)
  · rename_i hm
    exact ⟨.inr hm, by rw [operatorMove_eq_stop h]; rfl⟩

theorem heads_of_run_step {limit : Nat} {s : State} {ts : List Token}
    (h : run limit s = .ok ts) (hm : s.mode = .step) :
    Heads (Text.trimStart s.cursor.rest) ts := by
  rcases run_eq_ok.1 h with ⟨hmove, -⟩ | ⟨tokens, next, rest, hmove, -, rfl⟩
  · have := (mode_of_stop hmove).1
    simp [hm] at this
  · simp only [move, hm] at hmove
    exact (stepMove_lexed hmove).1.append rest

theorem opensStep_of_run_operator {limit : Nat} {s : State} {ts : List Token}
    (h : run limit s = .ok ts) (hm : s.mode = .operator)
    (hs : startsWith isStepStart (Text.trimStart s.cursor.rest) = false) :
    opensStep ts = false := by
  rcases run_eq_ok.1 h with ⟨-, rfl⟩ | ⟨tokens, next, rest, hmove, -, rfl⟩
  · rfl
  · simp only [move, hm] at hmove
    rw [((operatorMove_lexed limit hmove).1.append rest).opensStep, hs]

theorem operandMove_lexed {limit : Nat} {s next : State} {tokens ts : List Token}
    (h : operandMove s = .emit tokens next) (hr : run limit next = .ok ts)
    (hts : Lexed limit next.mode next.brackets ts) :
    Lexed limit .operand s.brackets (tokens ++ ts) := by
  obtain ⟨hes, hemits⟩ := operandMove_cases h
  rw [State.brackets, hes] at hts
  generalize hm : next.mode = mode at hemits hts
  generalize hcs : Text.trimStart next.cursor.rest = cs at hemits
  cases hemits with
  | rootDescent => exact .rootDescent hts
  | rootSlash opens =>
    have hheads := heads_of_run_step hr hm
    have hopens : opensStep ts := by rwa [hheads.opensStep, hcs]
    exact .rootSlash hopens hts
  | root alone => exact .root (opensStep_of_run_operator hr hm (hcs ▸ alone)) hts
  | variableName word => exact .variableName word hts
  | string word => exact .string word hts
  | number word => exact .number word hts
  | path opens noNumber =>
    have hheads := heads_of_run_step hr hm
    rw [hcs] at hheads
    have hopens : opensStep ts := by rwa [hheads.opensStep]
    exact .path hopens (hheads.opensNumber_eq_false noNumber) hts

/-- A run emits tokens that may follow in the mode of its state inside the open brackets. -/
theorem lexed_of_run {limit : Nat} :
    ∀ s ts, run limit s = .ok ts → Lexed limit s.mode s.brackets ts := by
  refine run_induction (fun s h => ?_) (fun s tokens next rest h hr hrest => ?_)
  · obtain ⟨hm | hm, hes⟩ := mode_of_stop h
    · rw [hm, hes]
      exact .noOperand
    · rw [hm, hes]
      exact .noOperator
  · unfold move at h
    split at h
    · rename_i hm
      rw [hm]
      exact operandMove_lexed h hr hrest
    · rename_i hm
      rw [hm]
      exact (stepMove_lexed h).2 rest hrest
    · rename_i hm
      rw [hm]
      exact trailMove_lexed h hrest
    · rename_i hm
      rw [hm]
      exact (operatorMove_lexed limit h).2 rest hrest

end Lexer
end XPath
