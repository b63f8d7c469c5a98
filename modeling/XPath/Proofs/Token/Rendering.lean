import XPath.Proofs.Token.Branches
import XPath.Proofs.Token.Written

/-!
# Tokens that are written and read again

A list of tokens that the lexer may emit is read back from its written form, whatever text it came
from.  Between two written tokens nothing stands but the spaces around the words `and` and `or`, so
for each token it has to be seen that what is written behind it cannot run into it.

* `settled_of_lexed_trail` and its kin: what follows a word, a variable or a number cannot run into
  it;
* `Emits`: a move that emits given tokens, up to their places, and leaves a given text;
* `readsBack_name` and its kin: the written form of one more token is read back;
* `run_of_lexed`: the written form of tokens that may follow in a mode is read as these tokens.
-/

namespace XPath
namespace Lexer

/-! ### Operators as they are written -/

/-- A comparison is written as it is. -/
theorem toList_spaceOperator_comparison (op : Comparison) :
    (spaceOperator (Operator.comparison op).text).toList
      = (Operator.comparison op).text.toList := by
  cases op <;> decide

/-- The words `and` and `or` are written between spaces. -/
theorem toList_spaceOperator_connective (op : Connective) :
    (spaceOperator (Operator.connective op).text).toList =
      ' ' :: (Operator.connective op).text.toList ++ [' '] := by
  cases op <;> decide

/-! ### What follows a token -/

def endsWord (c : Char) : Bool :=
  !Text.isBlank c && !isNameChar c && !(c == ':' || c == '(')

theorem settled_cons {c : Char} (h : endsWord c) (cs : List Char) : Settled (c :: cs) := by
  simp only [endsWord, Bool.and_eq_true, Bool.not_eq_true'] at h
  refine ⟨h.1.2, ?_⟩
  rw [trimStart_eq_self (by rw [startsWith_cons]; exact h.1.1)]
  exact h.2

/-- What is written where an operator is expected cannot run into a word. -/
theorem settled_of_lexed_operator {limit : Nat} {es : List Bracket} {ts : List Token}
    (h : Lexed limit .operator es ts) : Settled (writtenChars ts) := by
  cases h with
  | noOperator => exact ⟨by simp, by simp [Text.trimStart]⟩
  | predicateEnd rest =>
    rw [writtenChars_predicateEnd]
    exact settled_cons (by decide) _
  | callEnd rest =>
    rw [writtenChars_callEnd]
    exact settled_cons (by decide) _
  | argument rest =>
    rw [writtenChars_argument]
    exact settled_cons (by decide) _
  | operator op rest =>
    rw [writtenChars_operator]
    cases op with
    | comparison op => cases op <;> exact settled_cons (by decide) _
    | connective op => cases op <;> exact ⟨rfl, rfl⟩

/-- What is written behind a step, a variable or a call cannot run into it. -/
theorem settled_of_lexed_trail {limit : Nat} {es : List Bracket} {ts : List Token}
    (h : Lexed limit .trail es ts) : Settled (writtenChars ts) := by
  cases h with
  | predicateStart depth rest =>
    rw [writtenChars_predicateStart]
    exact settled_cons (by decide) _
  | slash rest =>
    rw [writtenChars_slash]
    exact settled_cons (by decide) _
  | descent rest =>
    rw [writtenChars_descent]
    exact settled_cons (by decide) _
  | pathEnd rest =>
    rw [writtenChars_pathEnd]
    exact settled_of_lexed_operator rest

/-! ### First characters of written tokens -/

theorem isWord_axis (a : Axis) : IsWord a.name.toList := by
  cases a <;> exact ⟨by decide, List.all_eq_true.1 (by decide), by decide⟩

theorem isWord_of_mem_nodeTypes {ty : String} (h : ty ∈ nodeTypes) : IsWord ty.toList := by
  simp only [nodeTypes, List.mem_cons, List.not_mem_nil, or_false] at h
  rcases h with rfl | rfl | rfl | rfl <;>
    exact ⟨by decide, List.all_eq_true.1 (by decide), by decide⟩

theorem isWord_targetedNodeType : IsWord targetedNodeType.toList :=
  isWord_of_mem_nodeTypes (by decide)

/-- Where a step is expected, the first token is written as its text, which is a step's word that
ends there, or the sign for the attribute axis. -/
theorem head_of_lexed_step {limit : Nat} {es : List Bracket} {ts : List Token}
    (h : Lexed limit .step es ts) :
    ∃ t rest w, ts = t :: rest ∧ writtenChars ts = t.text.toList ++ w ∧
      (t.text = "@" ∨ IsStepWord t.text.toList ∧ startsWith isNameChar w = false) := by
  cases h with
  | axis a rest =>
    exact ⟨_, _, _, rfl, writtenChars_axis _ _ _, .inr ⟨.inl (isWord_axis a), rfl⟩⟩
  | nameSpace word rest =>
    exact ⟨_, _, _, rfl, writtenChars_nameSpace _ _ _, .inr ⟨.inl word, rfl⟩⟩
  | @attributeSign _ ts _ rest =>
    exact ⟨_, ts, writtenChars ts, rfl, by simp, .inl rfl⟩
  | name word rest =>
    exact ⟨_, _, _, rfl, writtenChars_name _ _ _,
      .inr ⟨word, (settled_of_lexed_trail rest).notName⟩⟩
  | nodeType word rest =>
    exact ⟨_, _, _, rfl, writtenChars_nodeType _ _ _ (targetFollows_of_lexed rest),
      .inr ⟨.inl (isWord_of_mem_nodeTypes word), rfl⟩⟩
  | target word rest =>
    exact ⟨_, _, _, rfl, writtenChars_target _ _ _ _,
      .inr ⟨.inl isWord_targetedNodeType, rfl⟩⟩
  | emptyCall word other rest =>
    exact ⟨_, _, _, rfl, writtenChars_call _ _ _, .inr ⟨.inl word, rfl⟩⟩
  | call word other depth rest =>
    exact ⟨_, _, _, rfl, writtenChars_call _ _ _, .inr ⟨.inl word, rfl⟩⟩

/-- The first character where a step is expected. -/
theorem first_of_lexed_step {limit : Nat} {es : List Bracket} {ts : List Token}
    (h : Lexed limit .step es ts) :
    ∃ c cs, writtenChars ts = c :: cs ∧ Text.isBlank c = false ∧
      (isNameChar c ∨ c = '*' ∨ c = '@') := by
  obtain ⟨t, rest, w, rfl, hw, ht⟩ := head_of_lexed_step h
  rw [hw]
  rcases ht with ht | ⟨ht | ht, -⟩
  · rw [ht]
    exact ⟨_, _, rfl, rfl, .inr (.inr rfl)⟩
  · obtain ⟨c, cs, hcs⟩ := List.exists_cons_of_ne_nil ht.ne_nil
    have hb := ht.notBlank
    rw [hcs] at hb ⊢
    exact ⟨c, cs ++ w, rfl, hb, .inl (ht.nameChars c (by simp [hcs]))⟩
  · rw [ht]
    exact ⟨_, _, rfl, rfl, .inr (.inl rfl)⟩

theorem trimStart_of_lexed_step {limit : Nat} {es : List Bracket} {ts : List Token}
    (h : Lexed limit .step es ts) : Text.trimStart (writtenChars ts) = writtenChars ts := by
  obtain ⟨c, cs, hcs, hb, -⟩ := first_of_lexed_step h
  rw [hcs]
  exact trimStart_cons hb cs

theorem opensStep_of_lexed_step {limit : Nat} {es : List Bracket} {ts : List Token}
    (h : Lexed limit .step es ts) : opensStep ts = startsWith isStepStart (writtenChars ts) := by
  obtain ⟨t, rest, w, rfl, hw, ht⟩ := head_of_lexed_step h
  have hne : t.text.toList ≠ [] := by
    rcases ht with ht | ⟨ht, -⟩
    · simp [ht]
    · exact ht.ne_nil
  rw [hw, startsWith_append hne]
  rfl

theorem opensNumber_of_lexed_step {limit : Nat} {es : List Bracket} {ts : List Token}
    (h : Lexed limit .step es ts) : opensNumber ts = opensNumeral (writtenChars ts) := by
  obtain ⟨t, rest, w, rfl, hw, ht⟩ := head_of_lexed_step h
  rw [hw]
  show opensNumeral t.text.toList = _
  rcases ht with ht | ⟨ht, hend⟩
  · rw [ht]
    rfl
  · obtain ⟨c, cs, hcs⟩ := List.exists_cons_of_ne_nil ht.ne_nil
    rw [hcs]
    cases cs with
    | nil =>
      -- a point alone does not become a number, for no digit follows the word
      have hdigit : startsWith Char.isDigit w = false :=
        startsWith_mono (fun _ => isNameChar_of_isDigit) hend
      simp [opensNumeral, hdigit]
    | cons d cs => rfl

/-- The first character where an operand is expected, if there is one. -/
theorem first_of_lexed_operand {limit : Nat} {es : List Bracket} {ts : List Token}
    (h : Lexed limit .operand es ts) :
    writtenChars ts = [] ∨ ∃ c cs, writtenChars ts = c :: cs ∧ Text.isBlank c = false ∧
      c ≠ ')' ∧ c ≠ '=' := by
  cases h with
  | noOperand => exact .inl writtenChars_nil
  | rootDescent rest => exact .inr ⟨_, _, writtenChars_rootDescent _ _ _, by decide⟩
  | rootSlash opens rest => exact .inr ⟨_, _, writtenChars_rootSlash _ _ _, by decide⟩
  | root opens rest => exact .inr ⟨_, _, writtenChars_rootSlash _ _ _, by decide⟩
  | variableName word rest => exact .inr ⟨_, _, writtenChars_variable _ _ _, by decide⟩
  | string word rest =>
    obtain ⟨q, hq, -, hquoted⟩ := writtenChars_string _ _ word
    refine .inr ⟨q, _, hquoted, isBlank_eq_false_of_isQuote hq, ?_⟩
    constructor <;> rintro rfl <;> revert hq <;> decide
  | @number _ ts s o word rest =>
    obtain ⟨c, cs, hs, hc⟩ := word.exists_cons
    refine .inr ⟨c, cs ++ writtenChars ts, by rw [writtenChars_number, hs]; rfl, ?_, ?_, ?_⟩
    · rcases Bool.or_eq_true_iff.1 hc with hd | hp
      · exact isBlank_eq_false_of_isDigit hd
      · rw [eq_of_beq hp]
        rfl
    · rintro rfl
      revert hc
      decide
    · rintro rfl
      revert hc
      decide
  | path opens noNumber rest =>
    obtain ⟨c, cs, hcs, hb, hc⟩ := first_of_lexed_step rest
    refine .inr ⟨c, cs, hcs, hb, ?_⟩
    constructor <;> rintro rfl <;> revert hc <;> decide

/-- The first visible character where an operator is expected, if there is one, is that of the first
token. -/
theorem first_of_lexed_operator {limit : Nat} {es : List Bracket} {ts : List Token}
    (h : Lexed limit .operator es ts) :
    opensStep ts = startsWith isStepStart (Text.trimStart (writtenChars ts)) ∧
      startsWith (fun c => c == '/' || c == '[') (Text.trimStart (writtenChars ts)) = false := by
  cases h with
  | noOperator => simp [Text.trimStart, opensStep]
  | predicateEnd rest =>
    have hs : startsWith isStepStart "]".toList = false := by decide
    rw [writtenChars_predicateEnd, opensStep_cons]
    exact ⟨hs, rfl⟩
  | callEnd rest =>
    have hs : startsWith isStepStart ")".toList = false := by decide
    rw [writtenChars_callEnd, opensStep_cons]
    exact ⟨hs, rfl⟩
  | argument rest =>
    have hs : startsWith isStepStart ",".toList = false := by decide
    rw [writtenChars_argument, opensStep_cons]
    exact ⟨hs, rfl⟩
  | operator op rest =>
    rw [writtenChars_operator, opensStep_cons]
    cases op with
    | comparison op =>
      have hs : startsWith isStepStart (Operator.comparison op).text.toList = false := by
        cases op <;> decide
      refine ⟨hs.trans ?_, ?_⟩ <;> cases op <;> rfl
    | connective op =>
      have hs : startsWith isStepStart (Operator.connective op).text.toList = true := by
        cases op <;> decide
      refine ⟨hs.trans ?_, ?_⟩ <;> cases op <;> rfl

/-- What is written where a step is expected begins with no other character. -/
theorem ne_first_of_lexed_step {limit : Nat} {es : List Bracket} {ts : List Token} {d : Char}
    (h : Lexed limit .step es ts) (hd : ¬(isNameChar d ∨ d = '*' ∨ d = '@')) :
    startsWith (· == d) (writtenChars ts) = false := by
  obtain ⟨c, cs, hcs, -, hc⟩ := first_of_lexed_step h
  rw [hcs, startsWith_cons, beq_eq_false_iff_ne]
  intro heq
  exact hd (heq ▸ hc)

theorem notEquals_of_lexed_operand {limit : Nat} {es : List Bracket} {ts : List Token}
    (h : Lexed limit .operand es ts) : startsWith (· == '=') (writtenChars ts) = false := by
  rcases first_of_lexed_operand h with hcs | ⟨c, cs, hcs, -, -, hc⟩
  · rw [hcs]
    rfl
  · rw [hcs, startsWith_cons, beq_eq_false_iff_ne]
    exact hc

theorem notCloser_of_lexed_operand {limit : Nat} {es : List Bracket} {ts : List Token}
    (h : Lexed limit .operand es ts) :
    startsWith (· == ')') (Text.trimStart (writtenChars ts)) = false := by
  rcases first_of_lexed_operand h with hcs | ⟨c, cs, hcs, hb, hc, -⟩
  · rw [hcs]
    rfl
  · rw [hcs, trimStart_cons hb, startsWith_cons, beq_eq_false_iff_ne]
    exact hc

theorem notSlash_of_lexed_operator {limit : Nat} {es : List Bracket} {ts : List Token}
    (h : Lexed limit .operator es ts) : startsWith (· == '/') (writtenChars ts) = false := by
  have hslash := (first_of_lexed_operator h).2
  cases hcs : writtenChars ts with
  | nil => rfl
  | cons c cs =>
    rw [startsWith_cons, beq_eq_false_iff_ne]
    rintro rfl
    rw [hcs, trimStart_eq_self (by rfl)] at hslash
    simp at hslash

/-! ### Moves on written tokens -/

/-- The move emits the given tokens, up to their places, and leaves a mode, brackets and a text that
is left up to white space. -/
def Emits (mv : Move) (tokens : List Token) (mode : Mode) (es : List Bracket) (cs : List Char) :
    Prop :=
  ∃ us next, mv = .emit us next ∧ us.map Token.unplaced = tokens.map Token.unplaced ∧
    next.mode = mode ∧ next.brackets = es ∧ Text.trimStart next.cursor.rest = Text.trimStart cs

/-- The written form of the tokens is read as these tokens from every state in the mode and the
brackets. -/
def ReadsBack (limit : Nat) (mode : Mode) (es : List Bracket) (ts : List Token) : Prop :=
  ∀ s : State, s.mode = mode → s.brackets = es →
    Text.trimStart s.cursor.rest = Text.trimStart (writtenChars ts) →
    ∃ us, run limit s = .ok us ∧ us.map Token.unplaced = ts.map Token.unplaced

/-- A move on the first tokens, after which the others are read back. -/
theorem exists_run_of_emits {limit : Nat} {s : State} {tokens ts : List Token} {mode : Mode}
    {es : List Bracket} (hmove : Emits (move limit s) tokens mode es (writtenChars ts))
    (hrest : ReadsBack limit mode es ts) :
    ∃ us, run limit s = .ok us ∧ us.map Token.unplaced = (tokens ++ ts).map Token.unplaced := by
  obtain ⟨us, next, hus, htokens, hmode, hes, hcs⟩ := hmove
  obtain ⟨vs, hvs, hts⟩ := hrest next hmode hes hcs
  refine ⟨us ++ vs, run_eq_ok.2 (.inr ⟨us, next, vs, hus, hvs, rfl⟩), ?_⟩
  rw [List.map_append, List.map_append, htokens, hts]

theorem Emits.congr {mv : Move} {tokens : List Token} {mode : Mode} {es : List Bracket}
    {cs ds : List Char} (h : Emits mv tokens mode es cs)
    (hcs : Text.trimStart cs = Text.trimStart ds) : Emits mv tokens mode es ds := by
  obtain ⟨us, next, hmove, htokens, hmode, hes, hrest⟩ := h
  exact ⟨us, next, hmove, htokens, hmode, hes, hrest.trans hcs⟩

theorem emits_continue {s : State} {us tokens : List Token} {mode : Mode} {c : Cursor}
    {cs : List Char} (htokens : us.map Token.unplaced = tokens.map Token.unplaced)
    (hcs : Text.trimStart c.rest = Text.trimStart cs) :
    Emits (s.continue us mode c) tokens mode s.brackets cs :=
  ⟨us, _, rfl, htokens, rfl, rfl, hcs⟩

theorem emits_enter {s : State} {limit : Nat} {us tokens : List Token} {c : Cursor} {e : Enclosure}
    {cs : List Char} (hd : s.brackets.length < limit)
    (htokens : us.map Token.unplaced = tokens.map Token.unplaced)
    (hcs : Text.trimStart c.rest = Text.trimStart cs) :
    Emits (s.enter limit us c e) tokens .operand (e.bracket :: s.brackets) cs := by
  rw [State.brackets, List.length_map] at hd
  exact ⟨us, _, State.enter_eq_emit.2 ⟨hd, rfl, rfl⟩, htokens, rfl, rfl, hcs⟩

/-! ### Steps -/

section Steps

variable {limit : Nat} {s : State} {w : String} {after r : List Char} {o o' : Nat}

/-- A word is measured to its end, and what is visible behind it decides the move. -/
theorem stepWord_scanned (hc : s.cursor.skipBlank.rest = w.toList ++ after)
    (hafter : startsWith isNameChar after = false) (hw : IsStepWord w.toList) :
    stepWordLength s.cursor.skipBlank.rest = w.toList.length ∧
      (s.cursor.skipBlank.advance w.toList.length).skipBlank.rest = Text.trimStart after := by
  refine ⟨by rw [hc, stepWordLength_append hw hafter], ?_⟩
  rw [rest_skipBlank, rest_advance_append hc]

theorem length_ne_zero_of_word (hw : IsStepWord w.toList) : w.toList.length ≠ 0 :=
  fun h => hw.ne_nil (List.length_eq_zero_iff.1 h)

theorem ne_star_of_word (hw : IsWord w.toList) : w ≠ "*" := by
  rintro rfl
  exact hw.star_not_mem (by decide)

theorem stepMove_axis {a : Axis} (hc : s.cursor.skipBlank.rest = a.name.toList ++ after)
    (hafter : startsWith isNameChar after = false) (hw : IsStepWord a.name.toList)
    (hr : Text.trimStart after = ':' :: ':' :: r) :
    Emits (stepMove s limit) [⟨.axis, a.name, o⟩] .step s.brackets r := by
  obtain ⟨hn, hnext⟩ := stepWord_scanned hc hafter hw
  rw [hr] at hnext
  unfold stepMove
  simp only [hn, token_append hc]
  rw [hnext]
  simp only [Axis.ofName?_name, Option.isSome_some, if_true]
  refine emits_continue (by rfl) ?_
  rw [rest_advance, hnext]
  rfl

theorem stepMove_nameSpace (hc : s.cursor.skipBlank.rest = w.toList ++ after)
    (hafter : startsWith isNameChar after = false) (hw : IsWord w.toList)
    (hr : Text.trimStart after = ':' :: r) (hcolon : startsWith (· == ':') r = false) :
    Emits (stepMove s limit) [⟨.nameSpace, w, o⟩] .step s.brackets r := by
  obtain ⟨hn, hnext⟩ := stepWord_scanned hc hafter (.inl hw)
  rw [hr] at hnext
  have hne : ¬(w.toList.length = 0 ∨ w = "*") :=
    not_or.2 ⟨length_ne_zero_of_word (.inl hw), ne_star_of_word hw⟩
  unfold stepMove
  simp only [hn, token_append hc]
  rw [hnext]
  split
  · rename_i heq
    rw [List.cons.injEq] at heq
    rw [heq.2] at hcolon
    simp at hcolon
  · rw [if_neg hne]
    refine emits_continue (by rfl) ?_
    rw [rest_advance, hnext]
    rfl
  · rename_i heq
    simp at heq
  · rename_i h1 h2 h3
    exact absurd rfl (h2 r)

theorem stepMove_name (hc : s.cursor.skipBlank.rest = w.toList ++ after) (hafter : Settled after)
    (hw : IsStepWord w.toList) :
    Emits (stepMove s limit) [⟨.name, w, o⟩] .trail s.brackets after := by
  obtain ⟨hn, hnext⟩ := stepWord_scanned hc hafter.notName hw
  have hj := hafter.notJoined
  unfold stepMove
  simp only [hn, token_append hc]
  rw [hnext]
  split
  · rename_i heq
    rw [heq] at hj
    simp at hj
  · rename_i heq
    rw [heq] at hj
    simp at hj
  · rename_i heq
    rw [heq] at hj
    simp at hj
  · rw [if_pos (length_ne_zero_of_word hw)]
    refine emits_continue (by rfl) ?_
    rw [hnext, trimStart_trimStart]

theorem stepMove_attributeSign (hc : s.cursor.skipBlank.rest = '@' :: r) :
    Emits (stepMove s limit) [⟨.attributeSign, "@", o⟩] .step s.brackets r := by
  have hn : stepWordLength s.cursor.skipBlank.rest = 0 := by rw [hc]; rfl
  have hnext : (s.cursor.skipBlank.advance 0).skipBlank.rest = '@' :: r := by
    rw [rest_skipBlank, rest_advance, List.drop_zero, hc]
    rfl
  unfold stepMove
  simp only [hn]
  rw [hnext]
  simp only [ne_eq, not_true_eq_false, if_false, token_one hnext]
  refine emits_continue (by rfl) ?_
  rw [rest_advance, hnext]
  rfl

/-- At a word before a parenthesis the move is that of a node type or of a call. -/
theorem stepMove_paren (limit : Nat) (hc : s.cursor.skipBlank.rest = w.toList ++ after)
    (hafter : startsWith isNameChar after = false) (hw : IsWord w.toList)
    (hr : Text.trimStart after = '(' :: r) :
    ∃ paren : Cursor, paren.rest = '(' :: r ∧ stepMove s limit =
      if w ∈ nodeTypes then nodeTypeMove s s.cursor.skipBlank w.toList.length paren
      else callMove s limit s.cursor.skipBlank w.toList.length paren := by
  obtain ⟨hn, hnext⟩ := stepWord_scanned hc hafter (.inl hw)
  rw [hr] at hnext
  have hne : ¬(w.toList.length = 0 ∨ w = "*") :=
    not_or.2 ⟨length_ne_zero_of_word (.inl hw), ne_star_of_word hw⟩
  refine ⟨_, hnext, ?_⟩
  conv => lhs; unfold stepMove
  simp only [hn, token_append hc]
  rw [hnext]
  simp only [hne, if_false]

theorem stepMove_nodeType {ty : String} (hc : s.cursor.skipBlank.rest = ty.toList ++ after)
    (hafter : startsWith isNameChar after = false) (hty : ty ∈ nodeTypes)
    (hr : Text.trimStart after = '(' :: ')' :: r) :
    Emits (stepMove s limit) [⟨.nodeType, ty, o⟩] .trail s.brackets r := by
  obtain ⟨paren, hparen, hmove⟩ := stepMove_paren limit hc hafter (isWord_of_mem_nodeTypes hty) hr
  rw [hmove, if_pos hty]
  have hinside : (paren.advance 1).skipBlank.rest = ')' :: r := by
    rw [rest_skipBlank, rest_advance, hparen]
    rfl
  unfold nodeTypeMove
  simp only [token_append hc]
  rw [hinside, if_neg (by simp [isQuote])]
  refine emits_continue (by simp [Token.unplaced]) ?_
  rw [rest_advance, hinside]
  rfl

theorem stepMove_target {lit : String}
    (hc : s.cursor.skipBlank.rest = targetedNodeType.toList ++ after)
    (hafter : startsWith isNameChar after = false) (hlit : IsLiteral lit.toList)
    (hr : Text.trimStart after = '(' :: ((quoteLiteral lit).toList ++ ')' :: r)) :
    Emits (stepMove s limit) [⟨.nodeType, targetedNodeType, o⟩, ⟨.target, lit, o'⟩] .trail
      s.brackets r := by
  have hty : targetedNodeType ∈ nodeTypes := by decide
  obtain ⟨paren, hparen, hmove⟩ := stepMove_paren limit hc hafter isWord_targetedNodeType hr
  rw [hmove, if_pos hty]
  obtain ⟨q, hq, hmem, hquoted⟩ := toList_quoteLiteral hlit
  have hinside : (paren.advance 1).skipBlank.rest = q :: (lit.toList ++ q :: ')' :: r) := by
    rw [rest_skipBlank, rest_advance, hparen, hquoted]
    simp only [List.drop_succ_cons, List.drop_zero, List.cons_append, List.append_assoc,
      List.nil_append]
    refine trimStart_eq_self ?_
    rw [startsWith_cons]
    exact isBlank_eq_false_of_isQuote hq
  unfold nodeTypeMove
  simp only [token_append hc, true_and]
  generalize (paren.advance 1).skipBlank = inside at hinside ⊢
  have hrest : (inside.advance (lit.toList.length + 2)).skipBlank.rest = ')' :: r := by
    rw [rest_skipBlank, rest_advance, hinside, List.drop_succ_cons, ← List.drop_drop,
      List.drop_left]
    rfl
  have htoken : (inside.advance 1).token .target lit.toList.length
      = ⟨.target, lit, (inside.advance 1).offset⟩ := by
    rw [token_append (by rw [rest_advance, hinside]; rfl)]
  rw [if_pos (by rw [hinside]; exact hq), literal?_eq_some .target hinside hmem]
  simp only
  rw [hrest, htoken]
  refine emits_continue (by rfl) ?_
  rw [rest_advance, hrest]
  rfl

theorem stepMove_emptyCall (hc : s.cursor.skipBlank.rest = w.toList ++ after)
    (hafter : startsWith isNameChar after = false) (hw : IsWord w.toList)
    (hother : w ∉ nodeTypes) (hr : Text.trimStart after = '(' :: ')' :: r) :
    Emits (stepMove s limit) [⟨.call, w, o⟩, ⟨.callEnd, ")", o'⟩] .trail
      s.brackets r := by
  obtain ⟨paren, hparen, hmove⟩ := stepMove_paren limit hc hafter hw hr
  rw [hmove, if_neg hother]
  have hinside : (paren.advance 1).skipBlank.rest = ')' :: r := by
    rw [rest_skipBlank, rest_advance, hparen]
    rfl
  unfold callMove
  simp only [token_append hc, token_one hinside]
  rw [hinside]
  refine emits_continue (by rfl) ?_
  rw [rest_advance, hinside]
  rfl

theorem stepMove_call (hc : s.cursor.skipBlank.rest = w.toList ++ after)
    (hafter : startsWith isNameChar after = false) (hw : IsWord w.toList)
    (hother : w ∉ nodeTypes) (hr : Text.trimStart after = '(' :: r)
    (hd : s.brackets.length < limit) (hnotEnd : startsWith (· == ')') (Text.trimStart r) = false) :
    Emits (stepMove s limit) [⟨.call, w, o⟩, ⟨.argument, "", o'⟩] .operand
      (.call :: s.brackets) r := by
  obtain ⟨paren, hparen, hmove⟩ := stepMove_paren limit hc hafter hw hr
  rw [hmove, if_neg hother]
  have hinside : (paren.advance 1).skipBlank.rest = Text.trimStart r := by
    rw [rest_skipBlank, rest_advance, hparen]
    rfl
  unfold callMove
  simp only [token_append hc]
  split
  · rename_i heq
    rw [← hinside, heq] at hnotEnd
    simp at hnotEnd
  · refine emits_enter hd (by rfl) ?_
    rw [hinside, trimStart_trimStart]

end Steps

/-! ### Operands -/

section Operands

variable {s : State} {w : String} {r : List Char} {o o' : Nat}

theorem operandMove_rootDescent (hc : s.cursor.skipBlank.rest = '/' :: '/' :: r) :
    Emits (operandMove s) [⟨.rootDescent, "//", o⟩] .step s.brackets r := by
  unfold operandMove
  simp only [token_two hc]
  rw [hc]
  refine emits_continue (by rfl) ?_
  rw [rest_advance, hc]
  rfl

/-- At a single slash the move depends on whether a step can be read behind it. -/
theorem operandMove_slash (hc : s.cursor.skipBlank.rest = '/' :: r)
    (hr : startsWith (· == '/') r = false) :
    ∃ next : Cursor, next.rest = Text.trimStart r ∧ operandMove s =
      if startsWith isStepStart next.rest then
        s.continue [⟨.rootSlash, "/", s.cursor.skipBlank.offset⟩] .step next
      else s.continue [⟨.rootSlash, "/", s.cursor.skipBlank.offset⟩, next.token .pathEnd 0]
        .operator next := by
  refine ⟨(s.cursor.skipBlank.advance 1).skipBlank, ?_, ?_⟩
  · rw [rest_skipBlank, rest_advance, hc]
    rfl
  · unfold operandMove
    simp only [token_one hc]
    split
    · rename_i heq
      exact absurd (hc.symm.trans heq) (by simp)
    · rename_i heq
      rw [hc, List.cons.injEq] at heq
      simp [heq.2] at hr
    · rfl
    · rename_i heq
      exact absurd (hc.symm.trans heq) (by simp)
    · rename_i hne _ heq
      rw [hc, List.cons.injEq] at heq
      exact (hne heq.1.symm).elim

theorem operandMove_rootSlash (hc : s.cursor.skipBlank.rest = '/' :: r)
    (hr : startsWith (· == '/') r = false) (hstep : startsWith isStepStart (Text.trimStart r)) :
    Emits (operandMove s) [⟨.rootSlash, "/", o⟩] .step s.brackets r := by
  obtain ⟨next, hnext, hmove⟩ := operandMove_slash hc hr
  rw [hmove, hnext, if_pos hstep]
  refine emits_continue (by rfl) ?_
  rw [hnext, trimStart_trimStart]

theorem operandMove_root (hc : s.cursor.skipBlank.rest = '/' :: r)
    (hr : startsWith (· == '/') r = false)
    (hstep : startsWith isStepStart (Text.trimStart r) = false) :
    Emits (operandMove s) [⟨.rootSlash, "/", o⟩, ⟨.pathEnd, "", o'⟩] .operator s.brackets r := by
  obtain ⟨next, hnext, hmove⟩ := operandMove_slash hc hr
  rw [hmove, hnext, hstep, if_neg (by decide)]
  refine emits_continue (by rfl) ?_
  rw [hnext, trimStart_trimStart]

theorem operandMove_variable (hc : s.cursor.skipBlank.rest = '$' :: (w.toList ++ r))
    (hr : Settled r) (hw : IsVariableName w.toList) :
    Emits (operandMove s) [⟨.variable, w, o⟩] .trail s.brackets r := by
  have hname : (s.cursor.skipBlank.advance 1).rest = w.toList ++ r := by
    rw [rest_advance, hc]
    rfl
  have hn : variableLength false (w.toList ++ r) = w.toList.length :=
    variableLength_append hr.notName hr.notColon false hw.length
  have hne : w.toList.length ≠ 0 := fun h => hw.ne_nil (List.length_eq_zero_iff.1 h)
  unfold operandMove
  simp only [hname, hn]
  rw [hc]
  simp only [hne, if_false, token_append hname]
  refine emits_continue (by rfl) ?_
  rw [rest_advance_append hname]

/-- A character that is neither a slash nor the sign of a variable begins a literal, a number or a
step. -/
theorem operandMove_other {c : Char} (hc : s.cursor.skipBlank.rest = c :: r)
    (hslash : c ≠ '/') (hsign : c ≠ '$') :
    operandMove s =
      if isQuote c then
        match literal? s.cursor.skipBlank .string with
        | some (token, next) => s.continue [token] .operator next
        | none => .fail (.unterminatedLiteral s.cursor.skipBlank.offset)
      else if opensNumeral (c :: r) then
        s.continue [s.cursor.skipBlank.token .number (numberLength (c :: r))] .operator
          (s.cursor.skipBlank.advance (numberLength (c :: r)))
      else if isStepStart c then s.continue [] .step s.cursor.skipBlank
      else .fail (.unexpectedCharacter c s.cursor.skipBlank.offset) := by
  unfold operandMove
  simp only
  split
  · rename_i heq
    exact absurd (hc.symm.trans heq) (by simp)
  · rename_i heq
    exact absurd (hc.symm.trans heq) (by simp [hslash])
  · rename_i heq
    exact absurd (hc.symm.trans heq) (by simp [hslash])
  · rename_i heq
    exact absurd (hc.symm.trans heq) (by simp [hsign])
  · rename_i heq
    rw [hc, List.cons.injEq] at heq
    obtain ⟨rfl, rfl⟩ := heq
    rw [hc]
    rfl

theorem operandMove_string {q : Char} (hq : isQuote q) (hmem : q ∉ w.toList)
    (hc : s.cursor.skipBlank.rest = q :: (w.toList ++ q :: r)) :
    Emits (operandMove s) [⟨.string, w, o⟩] .operator s.brackets r := by
  have hslash : q ≠ '/' := by
    rintro rfl
    revert hq
    decide
  have hsign : q ≠ '$' := by
    rintro rfl
    revert hq
    decide
  rw [operandMove_other hc hslash hsign, if_pos hq, literal?_eq_some .string hc hmem]
  simp only
  rw [token_append (by rw [rest_advance, hc]; rfl)]
  refine emits_continue (by rfl) ?_
  rw [rest_advance, hc, List.drop_succ_cons, ← List.drop_drop, List.drop_left]
  rfl

theorem not_isQuote {c : Char} (hsingle : c ≠ '\'') (hdouble : c ≠ '"') : ¬isQuote c := by
  simp [isQuote, hsingle, hdouble]

theorem operandMove_number (hw : IsNumeral w.toList) (hc : s.cursor.skipBlank.rest = w.toList ++ r)
    (hr : startsWith isNameChar r = false) :
    Emits (operandMove s) [⟨.number, w, o⟩] .operator s.brackets r := by
  have hopens := hw.opens r
  have hlength := numberLength_append hw hr
  have htoken := token_append hc .number
  have hrest := rest_advance_append hc
  obtain ⟨c, cs, hcs, hfirst⟩ := hw.exists_cons
  have hlist : c :: (cs ++ r) = w.toList ++ r := by
    rw [hcs]
    rfl
  have hother {d : Char} (hd : d.isDigit = false ∧ d ≠ '.') : c ≠ d := by
    rintro rfl
    simp [hd] at hfirst
  have hquote : ¬isQuote c := not_isQuote (hother (by decide)) (hother (by decide))
  rw [operandMove_other (hc.trans hlist.symm) (hother (by decide)) (hother (by decide)),
    if_neg hquote, hlist, if_pos hopens, hlength, htoken]
  exact emits_continue (by rfl) (by rw [hrest])

theorem operandMove_path {c : Char} (hc : s.cursor.skipBlank.rest = c :: r) (hstep : isStepStart c)
    (hnumber : opensNumeral (c :: r) = false) :
    Emits (operandMove s) [] .step s.brackets (c :: r) := by
  have hother {d : Char} (hd : isStepStart d = false) : c ≠ d := by
    rintro rfl
    simp [hd] at hstep
  have hquote : ¬isQuote c := not_isQuote (hother (by decide)) (hother (by decide))
  rw [operandMove_other hc (hother (by decide)) (hother (by decide)), if_neg hquote, hnumber,
    if_neg (by decide), if_pos hstep]
  exact emits_continue (by rfl) (by rw [hc])

end Operands

/-! ### Trails, operators and ends -/

theorem trailMove_predicateStart {limit : Nat} {s : State} {r : List Char} {o : Nat}
    (hc : s.cursor.skipBlank.rest = '[' :: r) (hd : s.brackets.length < limit) :
    Emits (trailMove s limit) [⟨.predicateStart, "[", o⟩] .operand
      (.predicate :: s.brackets) r := by
  unfold trailMove
  simp only [token_one hc]
  rw [hc]
  refine emits_enter hd (by rfl) ?_
  rw [rest_advance, hc]
  rfl

theorem trailMove_descent {limit : Nat} {s : State} {r : List Char} {o : Nat}
    (hc : s.cursor.skipBlank.rest = '/' :: '/' :: r) :
    Emits (trailMove s limit) [⟨.descent, "//", o⟩] .step s.brackets r := by
  unfold trailMove
  simp only [token_two hc]
  rw [hc]
  refine emits_continue (by rfl) ?_
  rw [rest_advance, hc]
  rfl

theorem trailMove_slash {limit : Nat} {s : State} {r : List Char} {o : Nat}
    (hc : s.cursor.skipBlank.rest = '/' :: r) (hr : startsWith (· == '/') r = false) :
    Emits (trailMove s limit) [⟨.slash, "/", o⟩] .step s.brackets r := by
  unfold trailMove
  simp only [token_one hc]
  split
  · rename_i heq
    exact absurd (hc.symm.trans heq) (by simp)
  · rename_i heq
    rw [hc, List.cons.injEq] at heq
    simp [heq.2] at hr
  · refine emits_continue (by rfl) ?_
    rw [rest_advance, hc]
    rfl
  · rename_i hne
    exact absurd hc (hne r)

theorem trailMove_pathEnd {limit : Nat} {s : State} {r : List Char} {o : Nat}
    (hr : s.cursor.skipBlank.rest = Text.trimStart r)
    (hc : startsWith (fun c => c == '/' || c == '[') (Text.trimStart r) = false) :
    Emits (trailMove s limit) [⟨.pathEnd, "", o⟩] .operator s.brackets r := by
  rw [← hr] at hc
  unfold trailMove
  simp only
  split
  · rename_i heq
    rw [heq] at hc
    simp at hc
  · rename_i heq
    rw [heq] at hc
    simp at hc
  · rename_i heq
    rw [heq] at hc
    simp at hc
  · exact emits_continue (by rfl) (by rw [hr, trimStart_trimStart])

theorem operatorMove_operator {s : State} {op : Operator} {r : List Char} {o : Nat}
    (hc : s.cursor.skipBlank.rest = op.text.toList ++ r)
    (hn : operatorLength (op.text.toList ++ r) = op.text.toList.length) :
    Emits (operatorMove s) [⟨.operator, op.text, o⟩] .operand s.brackets r := by
  have htoken := token_append hc .operator
  have hrest := rest_advance_append hc
  have hne : op.text.toList.length ≠ 0 := by
    rcases op with op | op <;> cases op <;> decide
  have hfirst : startsWith isCloser (op.text.toList ++ r) = false := by
    rcases op with op | op <;> cases op <;> rfl
  unfold operatorMove
  simp only
  split
  · rename_i heq
    rw [(List.append_eq_nil_iff.1 (hc.symm.trans heq)).1] at hne
    exact absurd rfl hne
  · rename_i found rest heq
    have hcloser : isCloser found = false := by
      rw [← hc, heq] at hfirst
      exact hfirst
    rw [hcloser, hc, hn, Bool.false_and, if_neg (by decide), if_neg hne, htoken]
    exact emits_continue (by simp [Token.unplaced]) (by rw [hrest])

theorem operatorMove_predicateEnd {s : State} {es : List Bracket} {r : List Char} {o : Nat}
    (hc : s.cursor.skipBlank.rest = ']' :: r) (hes : s.brackets = .predicate :: es) :
    Emits (operatorMove s) [⟨.predicateEnd, "]", o⟩] .trail es r := by
  obtain ⟨e, outer, hs, he, rfl⟩ := List.map_eq_cons_iff.1 hes
  rw [operatorMove_closer (by rw [hc]; rfl) (by simp [hs])]
  cases e with
  | call f o => simp [Enclosure.bracket] at he
  | predicate o =>
    rw [closingMove_predicate hs, hc, if_pos (by rfl), token_one hc]
    refine ⟨_, _, rfl, by rfl, rfl, rfl, ?_⟩
    rw [rest_advance, hc]
    rfl

theorem operatorMove_callEnd {s : State} {es : List Bracket} {r : List Char} {o : Nat}
    (hc : s.cursor.skipBlank.rest = ')' :: r) (hes : s.brackets = .call :: es) :
    Emits (operatorMove s) [⟨.callEnd, ")", o⟩] .trail es r := by
  obtain ⟨e, outer, hs, he, rfl⟩ := List.map_eq_cons_iff.1 hes
  rw [operatorMove_closer (by rw [hc]; rfl) (by simp [hs])]
  cases e with
  | predicate o => simp [Enclosure.bracket] at he
  | call f o =>
    rw [closingMove_call hs hc, if_pos rfl, token_one hc]
    refine ⟨_, _, rfl, by rfl, rfl, rfl, ?_⟩
    rw [rest_advance, hc]
    rfl

theorem operatorMove_argument {s : State} {es : List Bracket} {r : List Char} {o : Nat}
    (hc : s.cursor.skipBlank.rest = ',' :: r) (hes : s.brackets = .call :: es) :
    Emits (operatorMove s) [⟨.argument, ",", o⟩] .operand s.brackets r := by
  obtain ⟨e, outer, hs, he, rfl⟩ := List.map_eq_cons_iff.1 hes
  rw [operatorMove_closer (by rw [hc]; rfl) (by simp [hs])]
  cases e with
  | predicate o => simp [Enclosure.bracket] at he
  | call f o =>
    rw [closingMove_call hs hc, if_neg (by decide), if_pos rfl, token_one hc]
    refine emits_continue (by rfl) ?_
    rw [rest_advance, hc]
    rfl

/-! ### Tokens read back, one constructor at a time -/

/-- Tokens are read back if a move emits the first of them and the others are read back. -/
theorem ReadsBack.append {limit : Nat} {mode mode' : Mode} {es es' : List Bracket}
    (tokens : List Token) {ts : List Token} {cs : List Char} (h : ReadsBack limit mode' es' ts)
    (hcs : writtenChars (tokens ++ ts) = cs)
    (hmove : ∀ s : State, s.mode = mode → s.brackets = es →
      s.cursor.skipBlank.rest = Text.trimStart cs →
      Emits (move limit s) tokens mode' es' (writtenChars ts)) :
    ReadsBack limit mode es (tokens ++ ts) :=
  fun s hm hes hc => exists_run_of_emits (hmove s hm hes (by rw [rest_skipBlank, hc, hcs])) h

section Modes

variable {limit : Nat} {mode' : Mode} {es es' : List Bracket} {ts : List Token} {cs : List Char}

theorem ReadsBack.operand (tokens : List Token) (h : ReadsBack limit mode' es' ts)
    (hcs : writtenChars (tokens ++ ts) = cs)
    (hmove : ∀ s : State, s.brackets = es → s.cursor.skipBlank.rest = Text.trimStart cs →
      Emits (operandMove s) tokens mode' es' (writtenChars ts)) :
    ReadsBack limit .operand es (tokens ++ ts) :=
  h.append tokens hcs fun s hm hes hc => by simpa only [move, hm] using hmove s hes hc

theorem ReadsBack.step (tokens : List Token) (h : ReadsBack limit mode' es' ts)
    (hcs : writtenChars (tokens ++ ts) = cs)
    (hmove : ∀ s : State, s.brackets = es → s.cursor.skipBlank.rest = Text.trimStart cs →
      Emits (stepMove s limit) tokens mode' es' (writtenChars ts)) :
    ReadsBack limit .step es (tokens ++ ts) :=
  h.append tokens hcs fun s hm hes hc => by simpa only [move, hm] using hmove s hes hc

theorem ReadsBack.trail (tokens : List Token) (h : ReadsBack limit mode' es' ts)
    (hcs : writtenChars (tokens ++ ts) = cs)
    (hmove : ∀ s : State, s.brackets = es → s.cursor.skipBlank.rest = Text.trimStart cs →
      Emits (trailMove s limit) tokens mode' es' (writtenChars ts)) :
    ReadsBack limit .trail es (tokens ++ ts) :=
  h.append tokens hcs fun s hm hes hc => by simpa only [move, hm] using hmove s hes hc

theorem ReadsBack.operator (tokens : List Token) (h : ReadsBack limit mode' es' ts)
    (hcs : writtenChars (tokens ++ ts) = cs)
    (hmove : ∀ s : State, s.brackets = es → s.cursor.skipBlank.rest = Text.trimStart cs →
      Emits (operatorMove s) tokens mode' es' (writtenChars ts)) :
    ReadsBack limit .operator es (tokens ++ ts) :=
  h.append tokens hcs fun s hm hes hc => by simpa only [move, hm] using hmove s hes hc

end Modes

theorem trimStart_space (cs : List Char) : Text.trimStart (' ' :: cs) = Text.trimStart cs := rfl

theorem trimStart_word {w : List Char} (hne : w ≠ []) (hb : startsWith Text.isBlank w = false)
    (cs : List Char) : Text.trimStart (w ++ cs) = w ++ cs :=
  trimStart_eq_self (by rw [startsWith_append hne, hb])

/-- Where nothing is left to read and nothing is open, the run ends. -/
theorem readsBack_nil {limit : Nat} {mode : Mode} (hm : mode = .operand ∨ mode = .operator) :
    ReadsBack limit mode [] [] := by
  intro s hmode hes hc
  have hc : s.cursor.skipBlank.rest = [] := by simpa [Text.trimStart] using hc
  have hstop : closingMove s s.cursor.skipBlank = .stop :=
    closingMove_eq_stop.2 (List.map_eq_nil_iff.1 hes)
  refine ⟨[], run_eq_ok.2 (.inl ⟨?_, rfl⟩), rfl⟩
  rcases hm with rfl | rfl
  · simp only [move, hmode, operandMove]
    rw [hc]
    exact hstop
  · simp only [move, hmode, operatorMove]
    rw [hc]
    exact hstop

section Constructors

variable {limit : Nat} {es : List Bracket} {ts : List Token} {w : String} {o o' : Nat}

theorem readsBack_rootDescent (h : ReadsBack limit .step es ts) :
    ReadsBack limit .operand es (⟨.rootDescent, "//", o⟩ :: ts) := by
  refine h.operand [_] (writtenChars_rootDescent _ _ _) ?_
  rintro s rfl hc
  exact operandMove_rootDescent hc

theorem readsBack_rootSlash (opens : opensStep ts) (rest : Lexed limit .step es ts)
    (h : ReadsBack limit .step es ts) :
    ReadsBack limit .operand es (⟨.rootSlash, "/", o⟩ :: ts) := by
  refine h.operand [_] (writtenChars_rootSlash _ _ _) ?_
  rintro s rfl hc
  refine operandMove_rootSlash hc (ne_first_of_lexed_step rest (by decide)) ?_
  rw [trimStart_of_lexed_step rest, ← opensStep_of_lexed_step rest, opens]

theorem readsBack_root (opens : opensStep ts = false) (rest : Lexed limit .operator es ts)
    (h : ReadsBack limit .operator es ts) :
    ReadsBack limit .operand es (⟨.rootSlash, "/", o⟩ :: ⟨.pathEnd, "", o'⟩ :: ts) := by
  have hwritten : writtenChars (⟨.rootSlash, "/", o⟩ :: ⟨.pathEnd, "", o'⟩ :: ts)
      = '/' :: writtenChars ts := by
    rw [writtenChars_rootSlash, writtenChars_pathEnd]
  refine h.operand [_, _] hwritten ?_
  rintro s rfl hc
  refine operandMove_root hc (notSlash_of_lexed_operator rest) ?_
  rw [← (first_of_lexed_operator rest).1, opens]

theorem readsBack_variable (word : IsVariableName w.toList) (rest : Lexed limit .trail es ts)
    (h : ReadsBack limit .trail es ts) :
    ReadsBack limit .operand es (⟨.variable, w, o⟩ :: ts) := by
  refine h.operand [_] (writtenChars_variable _ _ _) ?_
  rintro s rfl hc
  exact operandMove_variable hc (settled_of_lexed_trail rest) word

theorem readsBack_string (word : IsLiteral w.toList) (h : ReadsBack limit .operator es ts) :
    ReadsBack limit .operand es (⟨.string, w, o⟩ :: ts) := by
  obtain ⟨q, hq, hmem, hquoted⟩ := writtenChars_string o ts word
  refine h.operand [_] hquoted ?_
  rintro s rfl hc
  rw [trimStart_cons (isBlank_eq_false_of_isQuote hq)] at hc
  exact operandMove_string hq hmem hc

theorem readsBack_number (word : IsNumeral w.toList) (rest : Lexed limit .operator es ts)
    (h : ReadsBack limit .operator es ts) :
    ReadsBack limit .operand es (⟨.number, w, o⟩ :: ts) := by
  refine h.operand [_] (writtenChars_number _ _ _) ?_
  rintro s rfl hc
  rw [trimStart_word word.ne_nil word.notBlank] at hc
  exact operandMove_number word hc (settled_of_lexed_operator rest).notName

theorem readsBack_path (opens : opensStep ts) (noNumber : opensNumber ts = false)
    (rest : Lexed limit .step es ts) (h : ReadsBack limit .step es ts) :
    ReadsBack limit .operand es ts := by
  obtain ⟨c, cs, hcs, hb, -⟩ := first_of_lexed_step rest
  rw [opensStep_of_lexed_step rest, hcs] at opens
  rw [opensNumber_of_lexed_step rest, hcs] at noNumber
  refine h.operand [] hcs ?_
  rintro s rfl hc
  rw [trimStart_cons hb] at hc
  rw [hcs]
  exact operandMove_path hc opens noNumber

theorem readsBack_axis (a : Axis) (h : ReadsBack limit .step es ts) :
    ReadsBack limit .step es (⟨.axis, a.name, o⟩ :: ts) := by
  have hword := isWord_axis a
  refine h.step [_] (writtenChars_axis _ _ _) ?_
  rintro s rfl hc
  rw [trimStart_word hword.ne_nil hword.notBlank] at hc
  exact stepMove_axis hc rfl (.inl hword) rfl

theorem readsBack_nameSpace (word : IsWord w.toList) (rest : Lexed limit .step es ts)
    (h : ReadsBack limit .step es ts) :
    ReadsBack limit .step es (⟨.nameSpace, w, o⟩ :: ts) := by
  refine h.step [_] (writtenChars_nameSpace _ _ _) ?_
  rintro s rfl hc
  rw [trimStart_word word.ne_nil word.notBlank] at hc
  exact stepMove_nameSpace hc rfl word rfl (ne_first_of_lexed_step rest (by decide))

theorem readsBack_attributeSign (h : ReadsBack limit .step es ts) :
    ReadsBack limit .step es (⟨.attributeSign, "@", o⟩ :: ts) := by
  refine h.step [_] (writtenChars_attributeSign _ _ _) ?_
  rintro s rfl hc
  exact stepMove_attributeSign hc

theorem readsBack_name (word : IsStepWord w.toList) (rest : Lexed limit .trail es ts)
    (h : ReadsBack limit .trail es ts) :
    ReadsBack limit .step es (⟨.name, w, o⟩ :: ts) := by
  refine h.step [_] (writtenChars_name _ _ _) ?_
  rintro s rfl hc
  rw [trimStart_word word.ne_nil word.notBlank] at hc
  exact stepMove_name hc (settled_of_lexed_trail rest) word

theorem readsBack_nodeType (word : w ∈ nodeTypes) (rest : Lexed limit .trail es ts)
    (h : ReadsBack limit .trail es ts) :
    ReadsBack limit .step es (⟨.nodeType, w, o⟩ :: ts) := by
  have hword := isWord_of_mem_nodeTypes word
  refine h.step [_] (writtenChars_nodeType _ _ _ (targetFollows_of_lexed rest)) ?_
  rintro s rfl hc
  rw [trimStart_word hword.ne_nil hword.notBlank] at hc
  exact stepMove_nodeType hc rfl word rfl

theorem readsBack_target (word : IsLiteral w.toList) (h : ReadsBack limit .trail es ts) :
    ReadsBack limit .step es (⟨.nodeType, targetedNodeType, o⟩ :: ⟨.target, w, o'⟩ :: ts) := by
  have hword := isWord_targetedNodeType
  refine h.step [_, _] (writtenChars_target _ _ _ _) ?_
  rintro s rfl hc
  rw [trimStart_word hword.ne_nil hword.notBlank] at hc
  exact stepMove_target hc rfl word rfl

theorem readsBack_emptyCall (word : IsWord w.toList) (other : w ∉ nodeTypes)
    (h : ReadsBack limit .trail es ts) :
    ReadsBack limit .step es (⟨.call, w, o⟩ :: ⟨.callEnd, ")", o'⟩ :: ts) := by
  have hwritten : writtenChars (⟨.call, w, o⟩ :: ⟨.callEnd, ")", o'⟩ :: ts)
      = w.toList ++ '(' :: ')' :: writtenChars ts := by
    rw [writtenChars_call, writtenChars_callEnd]
  refine h.step [_, _] hwritten ?_
  rintro s rfl hc
  rw [trimStart_word word.ne_nil word.notBlank] at hc
  exact stepMove_emptyCall hc rfl word other rfl

theorem readsBack_call (word : IsWord w.toList) (other : w ∉ nodeTypes)
    (depth : es.length < limit) (rest : Lexed limit .operand (.call :: es) ts)
    (h : ReadsBack limit .operand (.call :: es) ts) :
    ReadsBack limit .step es (⟨.call, w, o⟩ :: ⟨.argument, "", o'⟩ :: ts) := by
  have hwritten : writtenChars (⟨.call, w, o⟩ :: ⟨.argument, "", o'⟩ :: ts)
      = w.toList ++ '(' :: writtenChars ts := by
    rw [writtenChars_call, writtenChars_argument]
    rfl
  refine h.step [_, _] hwritten ?_
  rintro s rfl hc
  rw [trimStart_word word.ne_nil word.notBlank] at hc
  exact stepMove_call hc rfl word other rfl depth (notCloser_of_lexed_operand rest)

theorem readsBack_predicateStart (depth : es.length < limit)
    (h : ReadsBack limit .operand (.predicate :: es) ts) :
    ReadsBack limit .trail es (⟨.predicateStart, "[", o⟩ :: ts) := by
  refine h.trail [_] (writtenChars_predicateStart _ _ _) ?_
  rintro s rfl hc
  exact trailMove_predicateStart hc depth

theorem readsBack_slash (rest : Lexed limit .step es ts) (h : ReadsBack limit .step es ts) :
    ReadsBack limit .trail es (⟨.slash, "/", o⟩ :: ts) := by
  refine h.trail [_] (writtenChars_slash _ _ _) ?_
  rintro s rfl hc
  exact trailMove_slash hc (ne_first_of_lexed_step rest (by decide))

theorem readsBack_descent (h : ReadsBack limit .step es ts) :
    ReadsBack limit .trail es (⟨.descent, "//", o⟩ :: ts) := by
  refine h.trail [_] (writtenChars_descent _ _ _) ?_
  rintro s rfl hc
  exact trailMove_descent hc

theorem readsBack_pathEnd (rest : Lexed limit .operator es ts)
    (h : ReadsBack limit .operator es ts) :
    ReadsBack limit .trail es (⟨.pathEnd, "", o⟩ :: ts) := by
  refine h.trail [_] (writtenChars_pathEnd _ _ _) ?_
  rintro s rfl hc
  exact trailMove_pathEnd hc (first_of_lexed_operator rest).2

theorem readsBack_predicateEnd (h : ReadsBack limit .trail es ts) :
    ReadsBack limit .operator (.predicate :: es) (⟨.predicateEnd, "]", o⟩ :: ts) :=
  h.operator [_] (writtenChars_predicateEnd _ _ _) fun _ hes hc => operatorMove_predicateEnd hc hes

theorem readsBack_callEnd (h : ReadsBack limit .trail es ts) :
    ReadsBack limit .operator (.call :: es) (⟨.callEnd, ")", o⟩ :: ts) :=
  h.operator [_] (writtenChars_callEnd _ _ _) fun _ hes hc => operatorMove_callEnd hc hes

theorem readsBack_argument (h : ReadsBack limit .operand (.call :: es) ts) :
    ReadsBack limit .operator (.call :: es) (⟨.argument, ",", o⟩ :: ts) :=
  h.operator [_] (writtenChars_argument _ _ _) fun _ hes hc => hes ▸ operatorMove_argument hc hes

/-- A word has a space on each side, and the space behind it is left to the next move. -/
theorem readsBack_operator (op : Operator) (rest : Lexed limit .operand es ts)
    (h : ReadsBack limit .operand es ts) :
    ReadsBack limit .operator es (⟨.operator, op.text, o⟩ :: ts) := by
  refine h.operator [_] (writtenChars_operator _ _ _) ?_
  rintro s rfl hc
  cases op with
  | comparison op =>
    rw [toList_spaceOperator_comparison, trimStart_eq_self (by cases op <;> rfl)] at hc
    exact operatorMove_operator hc (operatorLength_comparison op (notEquals_of_lexed_operand rest))
  | connective op =>
    rw [toList_spaceOperator_connective, List.append_assoc, List.cons_append, trimStart_space,
      trimStart_eq_self (by cases op <;> rfl)] at hc
    exact (operatorMove_operator hc (operatorLength_connective op rfl)).congr (trimStart_space _)

end Constructors

/-- Where a list of tokens may follow, its written form is read as these tokens. -/
theorem run_of_lexed {limit : Nat} {mode : Mode} {es : List Bracket} {ts : List Token}
    (h : Lexed limit mode es ts) : ReadsBack limit mode es ts := by
  induction h with
  | noOperand => exact readsBack_nil (.inl rfl)
  | rootDescent rest ih => exact readsBack_rootDescent ih
  | rootSlash opens rest ih => exact readsBack_rootSlash opens rest ih
  | root opens rest ih => exact readsBack_root opens rest ih
  | variableName word rest ih => exact readsBack_variable word rest ih
  | string word rest ih => exact readsBack_string word ih
  | number word rest ih => exact readsBack_number word rest ih
  | path opens noNumber rest ih => exact readsBack_path opens noNumber rest ih
  | axis a rest ih => exact readsBack_axis a ih
  | nameSpace word rest ih => exact readsBack_nameSpace word rest ih
  | attributeSign rest ih => exact readsBack_attributeSign ih
  | name word rest ih => exact readsBack_name word rest ih
  | nodeType word rest ih => exact readsBack_nodeType word rest ih
  | target word rest ih => exact readsBack_target word ih
  | emptyCall word other rest ih => exact readsBack_emptyCall word other ih
  | call word other depth rest ih => exact readsBack_call word other depth rest ih
  | predicateStart depth rest ih => exact readsBack_predicateStart depth ih
  | slash rest ih => exact readsBack_slash rest ih
  | descent rest ih => exact readsBack_descent ih
  | pathEnd rest ih => exact readsBack_pathEnd rest ih
  | noOperator => exact readsBack_nil (.inr rfl)
  | predicateEnd rest ih => exact readsBack_predicateEnd ih
  | callEnd rest ih => exact readsBack_callEnd ih
  | argument rest ih => exact readsBack_argument ih
  | operator op rest ih => exact readsBack_operator op rest ih

end Lexer
end XPath
