import XPath.Proofs.Token.Tiling

/-!
# Errors say what is so where they point

Whatever text cannot be broken into tokens, the error names a place of it, and what the error says
is so at this place.

* `LexError.Describes`: what an error says of the text from its offset on;
* `emitted`: the tokens that are emitted before a run ends or fails;
* `Knows`, `Move.Sound`: what every state of a run knows of the text, and what a move does to it;
* `points_of_run`, `tokenize_points`: the error of a run and of a whole text.
-/

namespace XPath

namespace LexError

def offset? : LexError → Option Nat
  | invalidAxis _ o | incompleteStep _ o | unterminatedNodeType _ o | unterminatedCall _ o
  | unterminatedPredicate o | unterminatedLiteral o | unexpectedCharacter _ o => some o
  | nestingTooDeep _ => none

/-- What an error says of the text from its offset on, where the lexer has emitted some tokens
before: the character that is there, the word, or the last of the tokens. -/
def Describes (emitted : List Token) : LexError → List Char → Prop
  | invalidAxis axis _, back => axis.toList <+: back ∧ ∀ a : Axis, a.name ≠ axis
  | incompleteStep token o, _ =>
    ∃ t, emitted.getLast? = some t ∧ t.text = token ∧ t.offset = o
  | unterminatedNodeType name _, back | unterminatedCall name _, back => name.toList <+: back
  | unterminatedPredicate _, back => back.head? = some '['
  | unterminatedLiteral _, back => ∃ q body, back = q :: body ∧ Lexer.isQuote q ∧ q ∉ body
  | unexpectedCharacter found _, back => back.head? = some found
  | nestingTooDeep _, _ => True

/-- The offset of an error, if it carries one, is that of a character of the text, and what the
error says of it is so. -/
def Points (text : String) (emitted : List Token) (e : LexError) : Prop :=
  ∀ o ∈ e.offset?, ∃ p : Cursor, (Cursor.start text).Leads p ∧ p.offset = o ∧ p.rest ≠ [] ∧
    e.Describes emitted p.rest

theorem points_at {text : String} {emitted : List Token} {e : LexError} {p : Cursor}
    (hp : (Cursor.start text).Leads p) (hoffset : e.offset? = some p.offset) (hne : p.rest ≠ [])
    (hthere : e.Describes emitted p.rest) : e.Points text emitted := by
  intro o ho
  rw [hoffset, Option.mem_some] at ho
  exact ⟨p, hp, ho, hne, hthere⟩

end LexError

namespace Lexer

/-- The tokens that are emitted from a state on, whether the text can be read to its end or not. -/
def emitted (limit : Nat) (s : State) : List Token :=
  match _h : move limit s with
  | .emit tokens next => tokens ++ emitted limit next
  | .stop | .fail _ => []
termination_by s.measure
decreasing_by exact measure_lt_of_move _h

section Emitted

variable {limit : Nat} {s next : State} {tokens ts : List Token} {e : LexError}

theorem emitted_of_emit (h : move limit s = .emit tokens next) :
    emitted limit s = tokens ++ emitted limit next := by
  rw [emitted]
  split <;> simp_all

theorem emitted_of_fail (h : move limit s = .fail e) : emitted limit s = [] := by
  rw [emitted]
  split <;> simp_all

/-- The tokens of a text that can be read are all that are emitted. -/
theorem emitted_of_run : ∀ s ts, run limit s = .ok ts → emitted limit s = ts := by
  refine run_induction (fun s hmove => ?_) (fun s tokens next rest hmove _ ih => ?_)
  · rw [emitted]
    split <;> simp_all
  · rw [emitted_of_emit hmove, ih]

end Emitted

/-! ### What holds of every state -/

/-- The enclosure carries the place of its bracket, or of the name of its function. -/
def Enclosure.Opened (text : String) : Enclosure → Prop
  | .predicate o => ∃ p : Cursor, (Cursor.start text).Leads p ∧ p.offset = o ∧
    p.rest.head? = some '['
  | .call f o => ∃ p : Cursor, (Cursor.start text).Leads p ∧ p.offset = o ∧ f ≠ "" ∧
    f.toList <+: p.rest

/-- Where a step is expected, one begins or a token that is not empty was emitted last. -/
def Expects (emitted : List Token) (mode : Mode) (c : Cursor) : Prop :=
  mode = .step → (∃ t ∈ emitted.getLast?, t.text ≠ "") ∨ startsWith isStepStart c.skipBlank.rest

/-- What a state behind the tokens `past` knows of the text: the last of these tokens, the places of
the open enclosures, and that a step has something in front of it or begins. -/
structure Knows (text : String) (past : List Token) (s : State) : Prop where
  last : s.last = past.getLast?
  opened : ∀ e ∈ s.enclosures, e.Opened text
  expects : Expects past s.mode s.cursor

/-- What a move does behind the tokens `past`: it goes on in a state that knows the text, or its
error points into the text. -/
def Move.Sound (text : String) (past : List Token) : Move → Prop
  | .emit tokens next => Knows text (past ++ tokens) next
  | .stop => True
  | .fail e => e.Points text past

/-! ### Moves -/

section Moves

variable {text : String} {past : List Token} {s : State} (hs : Knows text past s)
include hs

theorem sound_emit {tokens : List Token} {mode : Mode} {c : Cursor} {es : List Enclosure}
    (hes : ∀ e ∈ es, e.Opened text) (hmode : Expects (past ++ tokens) mode c) :
    (s.emit tokens mode c es).Sound text past := by
  refine ⟨?_, hes, hmode⟩
  show tokens.getLast?.or s.last = (past ++ tokens).getLast?
  rw [hs.last, List.getLast?_append]

/-- In any mode but that of a step nothing more is expected. -/
theorem sound_continue {tokens : List Token} {mode : Mode} {c : Cursor} (hmode : mode ≠ .step) :
    (s.continue tokens mode c).Sound text past :=
  sound_emit hs hs.opened fun h => absurd h hmode

/-- A step may be expected behind a token that is not empty. -/
theorem sound_continue_step {t : Token} {c : Cursor} (ht : t.text ≠ "") :
    (s.continue [t] .step c).Sound text past :=
  sound_emit hs hs.opened fun _ => .inl ⟨t, by simp, ht⟩

theorem sound_enter {limit : Nat} {tokens : List Token} {c : Cursor} {e : Enclosure}
    (he : e.Opened text) : (s.enter limit tokens c e).Sound text past := by
  unfold State.enter
  split
  · exact fun o ho => absurd ho (Option.not_mem_none o)
  · exact sound_emit hs (List.forall_mem_cons.2 ⟨he, hs.opened⟩) fun h => by cases h

omit hs in
/-- A text that begins with a word that is not empty is not empty. -/
theorem ne_nil_of_word {word : String} {cs : List Char} (hword : word ≠ "")
    (h : word.toList <+: cs) : cs ≠ [] := by
  rintro rfl
  exact hword (String.toList_eq_nil_iff.1 (List.prefix_nil.1 h))

omit hs in
/-- The characters of a token at a place. -/
theorem text_prefix_rest (c : Cursor) (kind : Token.Kind) (n : Nat) :
    (c.token kind n).text.toList <+: c.rest := by
  rw [Cursor.token, String.toList_ofList]
  exact List.take_prefix n c.rest

omit hs in
theorem token_ne_empty {c : Cursor} {kind : Token.Kind} {n : Nat} (hn : n ≠ 0) (hc : c.rest ≠ []) :
    (c.token kind n).text ≠ "" := by
  intro h
  have hnil : c.rest.take n = [] := by
    have htext := congrArg String.toList h
    rwa [Cursor.token, String.toList_ofList, String.toList_empty] at htext
  rcases List.take_eq_nil_iff.1 hnil with h | h
  · exact hn h
  · exact hc h

theorem sound_nodeTypeMove {c paren : Cursor} {n : Nat} (hc : (Cursor.start text).Leads c)
    (hp : c.Leads paren) (hparen : paren.rest ≠ []) :
    (nodeTypeMove s c n paren).Sound text past := by
  have hne : c.rest ≠ [] := hp.ne_nil hparen
  have hunclosed : (LexError.unterminatedNodeType (c.token .nodeType n).text c.offset).Points
      text past := LexError.points_at hc rfl hne (text_prefix_rest c .nodeType n)
  unfold nodeTypeMove
  simp only
  split
  · rename_i htarget
    obtain ⟨q, body, hbody⟩ := List.exists_cons_of_length_pos (length_pos_of_startsWith htarget.2)
    have hquote : isQuote q := by
      have hq := htarget.2
      rwa [hbody, startsWith_cons] at hq
    split
    · split
      · exact sound_continue hs (by decide)
      · exact hunclosed
    · rename_i hl
      exact LexError.points_at ((hc.trans hp).advance 1).skipBlank rfl
        (by rw [hbody]; exact List.cons_ne_nil _ _)
        ⟨q, body, hbody, hquote, not_mem_of_literal?_eq_none hl hbody⟩
  · split
    · exact sound_continue hs (by decide)
    · exact hunclosed

theorem sound_callMove {limit : Nat} {c paren : Cursor} {n : Nat} (hc : (Cursor.start text).Leads c)
    (hne : c.rest ≠ []) (hn : n ≠ 0) : (callMove s limit c n paren).Sound text past := by
  unfold callMove
  simp only
  split
  · exact sound_continue hs (by decide)
  · exact sound_enter hs ⟨c, hc, rfl, token_ne_empty hn hne, text_prefix_rest c .call n⟩

omit hs in
/-- Where a step begins, there is a word or the sign for the attribute axis. -/
theorem word_or_sign {cs : List Char} (h : startsWith isStepStart cs) :
    stepWordLength cs ≠ 0 ∨ startsWith (· == '@') cs := by
  cases cs with
  | nil => simp at h
  | cons c cs =>
    rw [startsWith_cons, isStepStart, Bool.or_eq_true] at h
    refine h.imp_left fun h => ?_
    unfold stepWordLength
    by_cases hstar : c = '*'
    · rw [if_pos (by simp [hstar])]
      exact Nat.one_ne_zero
    · have hname : isNameChar c := by
        simp only [Bool.or_eq_true, beq_iff_eq, hstar, or_false] at h
        rcases h with hstart | rfl
        · exact isNameChar_of_isNameStart hstart
        · decide
      rw [if_neg (by simpa using hstar), List.takeWhile_cons_of_pos hname]
      exact Nat.succ_ne_zero _

/-- Where nothing of a step comes, the token before it is not empty and lies in the text. -/
theorem points_incompleteStep {next : Cursor} (htiles : Tiles (.start text) past s.cursor)
    (hexpects : ∃ t ∈ past.getLast?, t.text ≠ "") :
    (match s.last with
      | some t => Move.fail (.incompleteStep t.text t.offset)
      | none => .fail (.incompleteStep "" next.offset)).Sound text past := by
  obtain ⟨t, ht, htext⟩ := hexpects
  have hlast : past.getLast? = some t := ht
  obtain ⟨p, hp, hoffset, hprefix⟩ := htiles.slice t (List.mem_of_getLast? hlast)
  rw [hs.last, hlast]
  exact LexError.points_at hp (congrArg some hoffset.symm) (ne_nil_of_word htext hprefix)
    ⟨t, hlast, rfl, rfl⟩

theorem sound_stepMove {limit : Nat} (htiles : Tiles (.start text) past s.cursor)
    (hmode : s.mode = .step) : (stepMove s limit).Sound text past := by
  have hc := htiles.leads.skipBlank
  have hexpects := hs.expects hmode
  have hblank := startsWith_isBlank_trimStart s.cursor.rest
  rw [← rest_skipBlank] at hblank
  rw [stepMove_eq]
  simp only
  generalize s.cursor.skipBlank = c at hc hexpects hblank
  generalize hn : stepWordLength c.rest = n
  have hnext := ((Cursor.Leads.refl c).advance n).skipBlank
  have hplace := hc.trans hnext
  have hzero (hn : n = 0) : (c.advance n).skipBlank.rest = c.rest := by
    rw [hn, rest_skipBlank, rest_advance, List.drop_zero, trimStart_eq_self hblank]
  generalize (c.advance n).skipBlank = next at hnext hplace hzero
  have hfound {d : Char} (hd : startsWith (· == d) next.rest) :
      next.rest ≠ [] ∧ next.rest.head? = some d := by
    obtain ⟨rest, hrest⟩ := exists_cons_of_startsWith hd
    rw [hrest]
    exact ⟨List.cons_ne_nil d rest, rfl⟩
  split
  · rename_i hcolon
    obtain ⟨hne, hhead⟩ := hfound hcolon
    split
    · split
      · rename_i haxis
        obtain ⟨a, ha⟩ := Option.isSome_iff_exists.1 haxis
        have htext : (c.token .axis n).text = a.name := name_of_ofName? ha
        refine sound_continue_step hs (htext ▸ ?_)
        cases a <;> decide
      · rename_i hunknown
        refine LexError.points_at hc rfl (hnext.ne_nil hne) ⟨text_prefix_rest c .name n, ?_⟩
        intro a ha
        rw [← ha, Axis.ofName?_name] at hunknown
        exact hunknown rfl
    · split
      · exact LexError.points_at hplace rfl hne hhead
      · rename_i hword
        exact sound_continue_step hs (token_ne_empty (not_or.1 hword).1 (hnext.ne_nil hne))
  · split
    · rename_i hparen
      obtain ⟨hne, hhead⟩ := hfound hparen
      split
      · exact LexError.points_at hplace rfl hne hhead
      · rename_i hword
        split
        · exact sound_nodeTypeMove hs hc hnext hne
        · exact sound_callMove hs hc (hnext.ne_nil hne) (not_or.1 hword).1
    · split
      · exact sound_continue hs (by decide)
      · rename_i hn0
        split
        · rename_i hsign
          exact sound_continue_step hs (token_ne_empty Nat.one_ne_zero (hfound hsign).1)
        · rename_i hsign
          -- nothing of a step is here, so it was expected behind a token
          refine points_incompleteStep hs htiles (hexpects.resolve_right fun hstep => ?_)
          have hn0 : n = 0 := Decidable.not_not.1 hn0
          rcases word_or_sign hstep with hw | hw
          · exact hw (hn.trans hn0)
          · exact hsign (by rwa [hzero hn0])

theorem sound_trailMove {limit : Nat} (hc : (Cursor.start text).Leads s.cursor) :
    (trailMove s limit).Sound text past := by
  have hc := hc.skipBlank
  rw [trailMove_eq]
  simp only
  generalize s.cursor.skipBlank = c at hc
  split
  · rename_i hbracket
    obtain ⟨rest, hrest⟩ := exists_cons_of_startsWith hbracket
    exact sound_enter hs ⟨c, hc, rfl, by rw [hrest]; rfl⟩
  · split
    · rename_i hslash
      have hne : c.rest ≠ [] := ne_nil_of_startsWith hslash
      split
      · exact sound_continue_step hs (token_ne_empty (by decide) hne)
      · exact sound_continue_step hs (token_ne_empty Nat.one_ne_zero hne)
    · exact sound_continue hs (by decide)

theorem sound_closingMove {c : Cursor} (hc : (Cursor.start text).Leads c) :
    (closingMove s c).Sound text past := by
  unfold closingMove
  split
  · trivial
  · rename_i hes
    obtain ⟨⟨p, hp, hoffset, hopen⟩, houter⟩ := List.forall_mem_cons.1 (hes ▸ hs.opened)
    split
    · exact sound_emit hs houter fun h => by cases h
    · refine LexError.points_at hp (congrArg some hoffset.symm) ?_ hopen
      rintro hnil
      simp [hnil] at hopen
  · rename_i hes
    obtain ⟨⟨p, hp, hoffset, hname, hprefix⟩, houter⟩ := List.forall_mem_cons.1 (hes ▸ hs.opened)
    split
    · exact LexError.points_at hp (congrArg some hoffset.symm)
        (ne_nil_of_word hname hprefix) hprefix
    · exact sound_emit hs houter fun h => by cases h
    · exact sound_continue hs (by decide)
    · rename_i hrest
      refine LexError.points_at hc rfl ?_ ?_
      · rw [hrest]
        exact List.cons_ne_nil _ _
      · rw [hrest]
        rfl

theorem sound_operandMove (hc : (Cursor.start text).Leads s.cursor) :
    (operandMove s).Sound text past := by
  have hc := hc.skipBlank
  have hskip := s.cursor.skipBlank_skipBlank
  cases hrest : s.cursor.skipBlank.rest with
  | nil =>
    rw [operandMove_nil hrest]
    exact sound_closingMove hs hc
  | cons found rest =>
    rw [operandMove_cons hrest]
    simp only
    generalize s.cursor.skipBlank = c at hc hskip hrest
    have hne : c.rest ≠ [] := by
      rw [hrest]
      exact List.cons_ne_nil found rest
    have hhead : c.rest.head? = some found := by
      rw [hrest]
      rfl
    split
    · split
      · exact sound_continue_step hs (token_ne_empty (by decide) hne)
      · split
        · exact sound_continue_step hs (token_ne_empty Nat.one_ne_zero hne)
        · exact sound_continue hs (by decide)
    · split
      · rename_i hsign
        split
        · exact LexError.points_at hc rfl hne (hsign ▸ hhead)
        · exact sound_continue hs (by decide)
      · split
        · rename_i hquote
          split
          · exact sound_continue hs (by decide)
          · rename_i hl
            exact LexError.points_at hc rfl hne
              ⟨found, rest, hrest, hquote, not_mem_of_literal?_eq_none hl hrest⟩
        · split
          · exact sound_continue hs (by decide)
          · split
            · rename_i hstep
              refine sound_emit hs hs.opened fun _ => .inr ?_
              rwa [hskip, hrest, startsWith_cons]
            · exact LexError.points_at hc rfl hne hhead

theorem sound_operatorMove (hc : (Cursor.start text).Leads s.cursor) :
    (operatorMove s).Sound text past := by
  have hc := hc.skipBlank
  cases hrest : s.cursor.skipBlank.rest with
  | nil =>
    rw [operatorMove_nil hrest]
    exact sound_closingMove hs hc
  | cons found rest =>
    rw [operatorMove_cons hrest]
    simp only
    split
    · exact sound_closingMove hs hc
    · split
      · refine LexError.points_at hc rfl ?_ ?_
        · rw [hrest]
          exact List.cons_ne_nil found rest
        · rw [hrest]
          rfl
      · exact sound_continue hs (by decide)

/-- A move goes on in a state that knows the text, or its error points into the text. -/
theorem sound_move (limit : Nat) (htiles : Tiles (.start text) past s.cursor) :
    (move limit s).Sound text past := by
  unfold move
  cases hm : s.mode with
  | operand => exact sound_operandMove hs htiles.leads
  | step => exact sound_stepMove hs htiles hm
  | trail => exact sound_trailMove hs htiles.leads
  | operator => exact sound_operatorMove hs htiles.leads

end Moves

/-! ### Whole texts -/

/-- The error of a run points into the text. -/
theorem points_of_run {text : String} {limit : Nat} {e : LexError} (s : State) :
    run limit s = .error e → ∀ past, Tiles (.start text) past s.cursor → Knows text past s →
      e.Points text (past ++ emitted limit s) := by
  fun_induction run limit s with
  | case1 s hmove =>
    intro h
    cases h
  | case2 s e' hmove =>
    rintro ⟨⟩ past htiles hs
    have hsound := sound_move hs limit htiles
    rw [hmove] at hsound
    rwa [emitted_of_fail hmove, List.append_nil]
  | case3 s tokens next hmove ih =>
    intro h past htiles hs
    have hnext := sound_move hs limit htiles
    rw [hmove] at hnext
    rw [emitted_of_emit hmove, ← List.append_assoc]
    exact ih (map_eq_error.1 h) _ (htiles.append (tiles_of_move hmove)) hnext

end Lexer

/-- The error of a text that cannot be broken into tokens, if it carries an offset, carries that of
one of its characters, and there the text is what the error says: the character or the word that is
named, the bracket, or the quote that does not come again.  A step is missing only behind a token,
the last one that was emitted. -/
theorem tokenize_points {limit : Nat} {s : String} {e : LexError}
    (h : tokenize limit s = .error e) :
    ∀ o ∈ e.offset?, ∃ front back, s.toList = front ++ back ∧ utf8Length front = o ∧ back ≠ [] ∧
      e.Describes (Lexer.emitted limit (Lexer.start s)) back := by
  intro o ho
  have hstart : Lexer.Knows s [] (Lexer.start s) :=
    ⟨rfl, fun e he => absurd he List.not_mem_nil, fun h => by cases h⟩
  obtain ⟨p, ⟨front, hrest, hoffset⟩, hp, hne, hthere⟩ :=
    Lexer.points_of_run (Lexer.start s) h [] (.nil (.refl _)) hstart o ho
  refine ⟨front, p.rest, hrest, ?_, hne, hthere⟩
  rw [← hp, hoffset]
  exact (Nat.zero_add _).symm

/-- Behind a letter of two bytes and a predicate's bracket, an axis without a step. -/
theorem tokenize_points_axis :
    ∃ s e, s = "é[child::" ∧ tokenize 1 s = .error e ∧ e = .incompleteStep "child" 3 ∧
      ∀ o ∈ e.offset?, ∃ front back, s.toList = front ++ back ∧ utf8Length front = o ∧ back ≠ [] ∧
        e.Describes (Lexer.emitted 1 (Lexer.start s)) back :=
  have h : tokenize 1 "é[child::" = .error (.incompleteStep "child" 3) := by decide +kernel
  ⟨_, _, rfl, h, rfl, tokenize_points h⟩

end XPath
