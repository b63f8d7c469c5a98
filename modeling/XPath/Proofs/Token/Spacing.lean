import XPath.Proofs.Token.Spread
import XPath.Proofs.Token.Tiling

/-!
# White space between the units of a text

White space may be put into a text anywhere but inside of a unit, and the tokens stay the same.  Two
runs are followed side by side, one on the text and one on the text with the white space.

* `Token.units`, `Token.Clear`: the parts of a text that belong together, and a place outside of
  them;
* `Spaced`, `Follows`: the states of the two runs, and what a move does in them;
* `follows_move`, `follows_run`: a move, and a run;
* `tokenize_insert`: a whole text.
-/

namespace XPath

/-! ### Units -/

/-- The characters from an offset on. -/
def dropBytes : Nat → List Char → List Char
  | 0, cs => cs
  | _ + 1, [] => []
  | n + 1, c :: cs => dropBytes (n + 1 - c.utf8Size) cs

theorem dropBytes_append (u v : List Char) : dropBytes (utf8Length u) (u ++ v) = v := by
  induction u with
  | nil => rw [utf8Length_nil, dropBytes, List.nil_append]
  | cons c u ih =>
    have hpos := c.utf8Size_pos
    obtain ⟨n, hn⟩ := Nat.exists_eq_succ_of_ne_zero (n := utf8Length (c :: u))
      (by rw [utf8Length_cons]; omega)
    have hrest : n + 1 - c.utf8Size = utf8Length u := by
      rw [utf8Length_cons] at hn
      omega
    rw [hn, List.cons_append, dropBytes, hrest, ih]

namespace Token

/-- The parts of a text that belong together: the text of the token with the sign of a variable or
the quotes of a literal, and the two colons behind an axis.  Each one is given by its two ends. -/
def units (text : String) (t : Token) : List (Nat × Nat) :=
  match t.kind with
  | .variable => [(t.offset - 1, t.stop)]
  | .string | .target => [(t.offset - 1, t.stop + 1)]
  | .axis =>
    let colons := t.stop + utf8Length ((dropBytes t.stop text.toList).takeWhile Text.isBlank)
    [(t.offset, t.stop), (colons, colons + 2)]
  | _ => [(t.offset, t.stop)]

/-- The offset `p` is not inside of a unit of the token. -/
def Clear (text : String) (p : Nat) (t : Token) : Prop :=
  ∀ u ∈ t.units text, ¬(u.1 < p ∧ p < u.2)

instance (text : String) (p : Nat) (t : Token) : Decidable (t.Clear text p) :=
  inferInstanceAs (Decidable (∀ u ∈ t.units text, ¬(u.1 < p ∧ p < u.2)))

variable {text : String} {p : Nat} {t : Token}

/-- Whatever the token is, its text is part of a unit. -/
theorem Clear.of_text (h : t.Clear text p) : ¬(t.offset < p ∧ p < t.stop) := by
  unfold Clear units at h
  split at h
  all_goals
    have hfirst := h _ List.mem_cons_self
    simp only at hfirst
    omega

theorem Clear.of_variable (h : t.Clear text p) (hk : t.kind = .variable) :
    ¬(t.offset - 1 < p ∧ p < t.stop) := by
  simp only [Clear, units, hk] at h
  exact h _ List.mem_cons_self

theorem Clear.of_literal (h : t.Clear text p) (hk : t.kind = .string ∨ t.kind = .target) :
    ¬(t.offset - 1 < p ∧ p < t.stop + 1) := by
  rcases hk with hk | hk
  all_goals
    simp only [Clear, units, hk] at h
    exact h _ List.mem_cons_self

theorem Clear.of_axis (h : t.Clear text p) (hk : t.kind = .axis) {c : Cursor}
    (hc : (Cursor.start text).Leads c) (hoffset : c.offset = t.stop) :
    ¬(c.skipBlank.offset < p ∧ p < c.skipBlank.offset + 2) := by
  obtain ⟨w, hrest, hplace⟩ := hc
  have hdrop : dropBytes t.stop text.toList = c.rest := by
    rw [← hoffset, hplace, show text.toList = w ++ c.rest from hrest]
    exact (congrArg (dropBytes · _) (Nat.zero_add _)).trans (dropBytes_append w c.rest)
  simp only [Clear, units, hk, hdrop] at h
  rw [Cursor.skipBlank, Cursor.skipWhile, hoffset]
  exact h _ (List.mem_cons_of_mem _ List.mem_cons_self)

end Token

namespace Lexer

/-- A literal lies between its quotes. -/
theorem ends_of_literal? {c next : Cursor} {kind : Token.Kind} {t : Token}
    (hl : literal? c kind = some (t, next)) (hq : startsWith isQuote c.rest) :
    t.kind = kind ∧ t.offset = c.offset + 1 ∧ next.offset = t.stop + 1 := by
  obtain ⟨q, w, cs, hrest, -, rfl, rfl⟩ := exists_of_literal? hl
  have hquote : q.utf8Size = 1 := by
    rw [hrest, startsWith_cons] at hq
    rcases eq_of_isQuote hq with rfl | rfl <;> decide
  refine ⟨rfl, ?_, ?_⟩
  · exact (Cursor.offset_advance_one hrest).trans (by rw [hquote])
  · have hbody : (c.advance 1).rest = w ++ q :: cs := by
      rw [rest_advance, hrest]
      rfl
    have hend := Cursor.offset_advance_one (rest_advance_append hbody)
    rw [Cursor.advance_advance, Cursor.advance_advance, hquote] at hend
    rw [Cursor.stop_token, ← hend, Nat.add_comm 1]

theorem offset_advance_colons {c : Cursor} (h : startsWith (· == ':') c.rest)
    (h' : startsWith (· == ':') (c.rest.drop 1)) : (c.advance 2).offset = c.offset + 2 := by
  obtain ⟨rest, hrest⟩ := exists_cons_of_startsWith h
  rw [hrest] at h'
  obtain ⟨rest', rfl⟩ := exists_cons_of_startsWith h'
  rw [Cursor.advance, hrest]
  rfl

/-- The white space is put inside of a token. -/
theorem unclear_of_parts {text : String} {p n : Nat} {c : Cursor} (h : Parts p c n)
    (kind : Token.Kind) : ¬(c.token kind n).Clear text p := by
  intro hclear
  refine hclear.of_text ?_
  rw [Cursor.stop_token]
  exact h

/-- The sign and the name of a variable belong together. -/
theorem not_parts_of_clear {text : String} {p n : Nat} {c : Cursor} {cs : List Char}
    (hc : c.rest = '$' :: cs) (h : ((c.advance 1).token .variable n).Clear text p) :
    ¬Parts p c (1 + n) := by
  have houtside := h.of_variable rfl
  rw [Cursor.stop_token, Cursor.advance_advance] at houtside
  have hsign : (c.advance 1).offset = c.offset + 1 := Cursor.offset_advance_one hc
  rintro ⟨hlt, hlt'⟩
  refine houtside ⟨?_, hlt'⟩
  show (c.advance 1).offset - 1 < p
  omega

/-! ### States and moves -/

/-- The two states are the same but for the places, which lie in the two texts. -/
structure Spaced (ws : List Char) (p : Nat) (s s' : State) : Prop where
  mode : s'.mode = s.mode
  brackets : s'.brackets = s.brackets
  cursor : Spread ws p s.cursor.skipBlank s'.cursor.skipBlank

/-- The second move does in the text with the white space what the first one does in the text
without it, unless the first one fails or the white space is put inside of a unit. -/
inductive Follows (text : String) (ws : List Char) (p : Nat) : Move → Move → Prop
  | emit {tokens tokens' next next'} (same : tokens'.map Token.unplaced = tokens.map Token.unplaced)
    (spaced : Spaced ws p next next') : Follows text ws p (.emit tokens next) (.emit tokens' next')
  | stop : Follows text ws p .stop .stop
  | fail {e m} : Follows text ws p (.fail e) m
  | inside {tokens next m t} (mem : t ∈ tokens) (unclear : ¬t.Clear text p) :
    Follows text ws p (.emit tokens next) m

theorem Follows.ite {text : String} {ws : List Char} {p : Nat} {q : Prop} [Decidable q]
    {m n m' n' : Move} (hm : q → Follows text ws p m m') (hn : ¬q → Follows text ws p n n') :
    Follows text ws p (if q then m else n) (if q then m' else n') :=
  rel_ite hm hn

theorem unplaced_single {t t' : Token} (ht : t'.unplaced = t.unplaced) :
    [t'].map Token.unplaced = [t].map Token.unplaced := by
  simp only [List.map_cons, ht]

theorem unplaced_pair {t t' u u' : Token} (ht : t'.unplaced = t.unplaced)
    (hu : u'.unplaced = u.unplaced) : [t', u'].map Token.unplaced = [t, u].map Token.unplaced := by
  simp only [List.map_cons, ht, hu]

section Moves

variable {text : String} {ws : List Char} {p limit : Nat} {s s' : State}

theorem follows_emit {tokens tokens' : List Token} {mode : Mode} {c c' : Cursor}
    {es es' : List Enclosure} (htokens : tokens'.map Token.unplaced = tokens.map Token.unplaced)
    (hc : Spread ws p c.skipBlank c'.skipBlank)
    (hes : es'.map Enclosure.bracket = es.map Enclosure.bracket) :
    Follows text ws p (s.emit tokens mode c es) (s'.emit tokens' mode c' es') :=
  .emit htokens ⟨rfl, hes, hc⟩

variable (hs : Spaced ws p s s')
include hs

theorem follows_continue {tokens tokens' : List Token} {mode : Mode} {c c' : Cursor}
    (htokens : tokens'.map Token.unplaced = tokens.map Token.unplaced)
    (hc : Spread ws p c.skipBlank c'.skipBlank) :
    Follows text ws p (s.continue tokens mode c) (s'.continue tokens' mode c') :=
  follows_emit htokens hc hs.brackets

/-- A move over a single token. -/
theorem follows_token {mode : Mode} {c c' : Cursor} {n : Nat} (hc : Alike ws p c c' n)
    (kind : Token.Kind) :
    Follows text ws p (s.continue [c.token kind n] mode (c.advance n))
      (s'.continue [c'.token kind n] mode (c'.advance n)) :=
  follows_continue hs (unplaced_single (hc.token kind)) hc.behind

theorem follows_enter {tokens tokens' : List Token} {c c' : Cursor} {e e' : Enclosure}
    (htokens : tokens'.map Token.unplaced = tokens.map Token.unplaced)
    (hc : Spread ws p c.skipBlank c'.skipBlank) (he : e'.bracket = e.bracket) :
    Follows text ws p (s.enter limit tokens c e) (s'.enter limit tokens' c' e') := by
  have hlength : s'.enclosures.length = s.enclosures.length := by
    simpa [State.brackets] using congrArg List.length hs.brackets
  unfold State.enter
  rw [hlength]
  refine .ite (fun _ => .fail) (fun _ => follows_emit htokens hc ?_)
  rw [List.map_cons, List.map_cons, he]
  exact congrArg (e.bracket :: ·) hs.brackets

variable (hws : ∀ x ∈ ws, x ∈ spaces)
include hws

theorem follows_close {tokens tokens' : List Token} {c c' : Cursor} {e e' : LexError}
    (htokens : tokens'.map Token.unplaced = tokens.map Token.unplaced) (hc : Spread ws p c c') :
    Follows text ws p
      (if startsWith (· == ')') c.rest then s.continue tokens .trail (c.advance 1) else .fail e)
      (if startsWith (· == ')') c'.rest then s'.continue tokens' .trail (c'.advance 1)
        else .fail e') := by
  rw [hc.startsWith_eq]
  refine .ite (fun hend => ?_) (fun _ => .fail)
  have hne := ne_nil_of_startsWith hend
  exact follows_continue hs htokens (hc.alike_one hws hne).behind

theorem follows_nodeTypeMove {c c' paren paren' : Cursor} {n : Nat} (hc : Alike ws p c c' n)
    (hp : Spread ws p paren paren') (hne : paren.rest ≠ []) :
    Follows text ws p (nodeTypeMove s c n paren) (nodeTypeMove s' c' n paren') := by
  have hinside := (hp.alike_one hws hne).behind
  have htext : (c'.token .nodeType n).text = (c.token .nodeType n).text :=
    congrArg Prod.snd (hc.token .nodeType)
  rw [nodeTypeMove_eq, nodeTypeMove_eq]
  simp only [htext]
  generalize (paren.advance 1).skipBlank = inside at hinside
  generalize (paren'.advance 1).skipBlank = inside' at hinside
  rw [hinside.startsWith_eq isQuote]
  refine .ite (fun htarget => ?_)
    (fun _ => follows_close hs hws (unplaced_single (hc.token .nodeType)) hinside)
  cases hl : literal? inside .target with
  | none => exact .fail
  | some found =>
    obtain ⟨t, next⟩ := found
    obtain ⟨hkind, hopen, hclose⟩ := ends_of_literal? hl htarget.2
    by_cases hclear : t.Clear text p
    · have hparts : ¬(inside.offset < p ∧ p < next.offset) := by
        have houtside := hclear.of_literal (.inr hkind)
        omega
      obtain ⟨t', next', hl', ht, hnext⟩ := hinside.literal?_eq hws hl hparts
      simp only [hl']
      exact follows_close hs hws (unplaced_pair (hc.token .nodeType) ht) hnext
    · simp only
      split
      · exact .inside (List.mem_cons_of_mem _ List.mem_cons_self) hclear
      · exact .fail

theorem follows_callMove {c c' paren paren' : Cursor} {n : Nat} (hc : Alike ws p c c' n)
    (hp : Spread ws p paren paren') (hne : paren.rest ≠ []) :
    Follows text ws p (callMove s limit c n paren) (callMove s' limit c' n paren') := by
  have hinside := (hp.alike_one hws hne).behind
  rw [callMove_eq, callMove_eq]
  simp only [hinside.startsWith_eq]
  generalize (paren.advance 1).skipBlank = inside at hinside
  generalize (paren'.advance 1).skipBlank = inside' at hinside
  refine .ite (fun hend => ?_) (fun _ => ?_)
  · have hne := ne_nil_of_startsWith hend
    have halike := hinside.alike_one hws hne
    exact follows_continue hs (unplaced_pair (hc.token .call) (halike.token .callEnd))
      halike.behind
  · exact follows_enter hs (unplaced_pair (hc.token .call) rfl) (hinside.skipBlank hws) rfl

omit hs hws in
/-- Where a step begins, the white space may be put inside of its first word. -/
theorem follows_stepMove_of_parts {m : Move}
    (hparts : Parts p s.cursor.skipBlank (stepWordLength s.cursor.skipBlank.rest)) :
    Follows text ws p (stepMove s limit) m := by
  rw [stepMove_eq]
  simp only
  generalize s.cursor.skipBlank = c at hparts
  generalize stepWordLength c.rest = n at hparts
  have hword (kind : Token.Kind) : ¬(c.token kind n).Clear text p := unclear_of_parts hparts kind
  have hn : n ≠ 0 := by
    rintro rfl
    exact Nat.lt_asymm hparts.1 hparts.2
  generalize (c.advance n).skipBlank = next
  split
  -- colons behind the word
  · split
    · split
      · exact .inside List.mem_cons_self (hword .axis)
      · exact .fail
    · split
      · exact .fail
      · exact .inside List.mem_cons_self (hword .nameSpace)
  · split
    · split
      · exact .fail
      · split
        · rw [nodeTypeMove_eq]
          simp only
          split
          · split
            · split
              · exact .inside List.mem_cons_self (hword .nodeType)
              · exact .fail
            · exact .fail
          · split
            · exact .inside List.mem_cons_self (hword .nodeType)
            · exact .fail
        · rw [callMove_eq]
          simp only
          split
          · exact .inside List.mem_cons_self (hword .call)
          · unfold State.enter
            split
            · exact .fail
            · exact .inside List.mem_cons_self (hword .call)
    · exact .inside List.mem_cons_self (hword .name)

theorem follows_stepMove (hleads : (Cursor.start text).Leads s.cursor) :
    Follows text ws p (stepMove s limit) (stepMove s' limit) := by
  -- every test depends on the length of the word, so this is decided first
  by_cases hparts : Parts p s.cursor.skipBlank (stepWordLength s.cursor.skipBlank.rest)
  · exact follows_stepMove_of_parts hparts
  have hword := hs.cursor.stepWordLength_eq hws hparts
  have hc := hs.cursor.alike hws (stepWordLength_le _) hparts
  have hplace := hleads.skipBlank
  rw [stepMove_eq, stepMove_eq]
  simp only [hword]
  generalize s.cursor.skipBlank = c at hc hplace hparts
  generalize s'.cursor.skipBlank = c' at hc
  generalize stepWordLength c.rest = n at hc hparts
  have htext : (c'.token .name n).text = (c.token .name n).text :=
    congrArg Prod.snd (hc.token .name)
  have hnext := hc.behind
  have hcolons (hclear : (c.token .axis n).Clear text p) :
      ¬((c.advance n).skipBlank.offset < p ∧ p < (c.advance n).skipBlank.offset + 2) :=
    hclear.of_axis rfl (hplace.advance n) (c.stop_token .axis n).symm
  simp only [htext]
  generalize (c.advance n).skipBlank = next at hnext hcolons
  generalize (c'.advance n).skipBlank = next' at hnext
  rw [hnext.startsWith_eq (· == ':'), hnext.startsWith_eq (· == '('),
    hnext.startsWith_eq (· == '@')]
  refine .ite (fun hcolon => ?_) (fun _ => .ite (fun hparen => ?_) (fun _ => .ite
    (fun _ => follows_continue hs (unplaced_single (hc.token .name)) (hnext.skipBlank hws))
    (fun _ => .ite (fun hsign => ?_) (fun _ => ?_))))
  · have hne := ne_nil_of_startsWith hcolon
    rcases hnext.second hws (q := (· == ':')) (by decide) with
      ⟨hsecond, hsecond'⟩ | ⟨hsecond, hsecond', halike⟩ | ⟨hsecond, hinside⟩
    · rw [hsecond, hsecond', if_neg Bool.false_ne_true, if_neg Bool.false_ne_true]
      exact .ite (fun _ => .fail) fun _ =>
        follows_continue hs (unplaced_single (hc.token .nameSpace)) (hnext.alike_one hws hne).behind
    · rw [if_pos hsecond, if_pos hsecond']
      exact .ite (fun _ => follows_continue hs (unplaced_single (hc.token .axis)) halike.behind)
        (fun _ => .fail)
    · rw [if_pos hsecond]
      split
      · refine .inside List.mem_cons_self fun hclear => hcolons hclear ⟨hinside.1, ?_⟩
        rw [← offset_advance_colons hcolon hsecond]
        exact hinside.2
      · exact .fail
  · have hne := ne_nil_of_startsWith hparen
    exact .ite (fun _ => .fail) (fun _ => .ite (fun _ => follows_nodeTypeMove hs hws hc hnext hne)
      (fun _ => follows_callMove hs hws hc hnext hne))
  · have hne := ne_nil_of_startsWith hsign
    exact follows_token hs (hnext.alike_one hws hne) .attributeSign
  · cases s.last <;> exact .fail

theorem follows_trailMove : Follows text ws p (trailMove s limit) (trailMove s' limit) := by
  have hc := hs.cursor
  rw [trailMove_eq, trailMove_eq]
  simp only
  generalize s.cursor.skipBlank = c at hc
  generalize s'.cursor.skipBlank = c' at hc
  rw [hc.startsWith_eq, hc.startsWith_eq]
  refine .ite (fun hbracket => ?_) (fun _ => .ite (fun hslash => ?_) (fun _ => ?_))
  · have halike := hc.alike_one hws (ne_nil_of_startsWith hbracket)
    exact follows_enter hs (unplaced_single (halike.token .predicateStart)) halike.behind rfl
  · have hne := ne_nil_of_startsWith hslash
    rcases hc.second hws (q := (· == '/')) (by decide) with
      ⟨hsecond, hsecond'⟩ | ⟨hsecond, hsecond', halike⟩ | ⟨hsecond, hparts⟩
    · rw [hsecond, hsecond', if_neg Bool.false_ne_true, if_neg Bool.false_ne_true]
      exact follows_token hs (hc.alike_one hws hne) .slash
    · rw [if_pos hsecond, if_pos hsecond']
      exact follows_token hs halike .descent
    · rw [if_pos hsecond]
      exact .inside List.mem_cons_self (unclear_of_parts hparts .descent)
  · exact follows_continue hs rfl (hc.skipBlank hws)

theorem follows_closingMove {c c' : Cursor} (hc : Spread ws p c c') :
    Follows text ws p (closingMove s c) (closingMove s' c') := by
  have hbrackets : s'.enclosures.map Enclosure.bracket = s.enclosures.map Enclosure.bracket :=
    hs.brackets
  cases hes : s.enclosures with
  | nil =>
    rw [hes] at hbrackets
    rw [closingMove_eq_stop.2 hes, closingMove_eq_stop.2 (List.map_eq_nil_iff.1 hbrackets)]
    exact .stop
  | cons e es =>
    rw [hes, List.map_cons] at hbrackets
    obtain ⟨e', es', hes', he, houter⟩ := List.map_eq_cons_iff.1 hbrackets
    have hemit (kind : Token.Kind) (hne : c.rest ≠ []) :
        Follows text ws p (s.emit [c.token kind 1] .trail (c.advance 1) es)
          (s'.emit [c'.token kind 1] .trail (c'.advance 1) es') :=
      have halike := hc.alike_one hws hne
      follows_emit (unplaced_single (halike.token kind)) halike.behind houter
    cases e with
    | predicate o =>
      cases e' with
      | predicate o' =>
        rw [closingMove_predicate hes, closingMove_predicate hes', hc.startsWith_eq]
        exact .ite (fun hend => hemit _ (ne_nil_of_startsWith hend))
          (fun _ => .fail)
      | call f' o' => cases he
    | call f o =>
      cases e' with
      | predicate o' => cases he
      | call f' o' =>
        cases hrest : c.rest with
        | nil =>
          have hfail : closingMove s c = .fail (.unterminatedCall f o) := by
            unfold closingMove
            simp only [hes, hrest]
          rw [hfail]
          exact .fail
        | cons found rest =>
          obtain ⟨rest', hrest'⟩ := hc.exists_cons hrest
          have hne : c.rest ≠ [] := by
            rw [hrest]
            exact List.cons_ne_nil found rest
          rw [closingMove_call hes hrest, closingMove_call hes' hrest']
          exact .ite (fun _ => hemit _ hne) (fun _ => .ite
            (fun _ => follows_token hs (hc.alike_one hws hne) .argument) (fun _ => .fail))

/-- A slash in front of an operand. -/
theorem follows_root {c c' : Cursor} (hc : Spread ws p c c') (hne : c.rest ≠ []) :
    Follows text ws p
      (if startsWith (· == '/') (c.rest.drop 1) then
        s.continue [c.token .rootDescent 2] .step (c.advance 2)
      else if startsWith isStepStart (c.advance 1).skipBlank.rest then
        s.continue [c.token .rootSlash 1] .step (c.advance 1).skipBlank
      else
        s.continue [c.token .rootSlash 1, (c.advance 1).skipBlank.token .pathEnd 0] .operator
          (c.advance 1).skipBlank)
      (if startsWith (· == '/') (c'.rest.drop 1) then
        s'.continue [c'.token .rootDescent 2] .step (c'.advance 2)
      else if startsWith isStepStart (c'.advance 1).skipBlank.rest then
        s'.continue [c'.token .rootSlash 1] .step (c'.advance 1).skipBlank
      else
        s'.continue [c'.token .rootSlash 1, (c'.advance 1).skipBlank.token .pathEnd 0] .operator
          (c'.advance 1).skipBlank) := by
  have halike := hc.alike_one hws hne
  rcases hc.second hws (q := (· == '/')) (by decide) with
    ⟨hsecond, hsecond'⟩ | ⟨hsecond, hsecond', htwo⟩ | ⟨hsecond, hinside⟩
  · have hnext := halike.behind.skipBlank hws
    rw [hsecond, hsecond', if_neg Bool.false_ne_true, if_neg Bool.false_ne_true,
      halike.behind.startsWith_eq]
    exact .ite (fun _ => follows_continue hs (unplaced_single (halike.token .rootSlash)) hnext)
      (fun _ => follows_continue hs (unplaced_pair (halike.token .rootSlash) rfl) hnext)
  · rw [if_pos hsecond, if_pos hsecond']
    exact follows_token hs htwo .rootDescent
  · rw [if_pos hsecond]
    exact .inside List.mem_cons_self (unclear_of_parts hinside .rootDescent)

theorem follows_variable {c c' : Cursor} {cs : List Char} {e e' : LexError}
    (hc : Spread ws p c c') (hsign : c.rest = '$' :: cs) :
    Follows text ws p
      (if variableLength false (c.advance 1).rest = 0 then .fail e
      else
        s.continue [(c.advance 1).token .variable (variableLength false (c.advance 1).rest)] .trail
          ((c.advance 1).advance (variableLength false (c.advance 1).rest)))
      (if variableLength false (c'.advance 1).rest = 0 then .fail e'
      else
        s'.continue [(c'.advance 1).token .variable (variableLength false (c'.advance 1).rest)]
          .trail ((c'.advance 1).advance (variableLength false (c'.advance 1).rest))) := by
  have hne : c.rest ≠ [] := by
    rw [hsign]
    exact List.cons_ne_nil '$' cs
  by_cases hclear : ((c.advance 1).token .variable (variableLength false (c.advance 1).rest)).Clear
      text p
  · have hparts := not_parts_of_clear hsign hclear
    have hlength : 1 + variableLength false (c.advance 1).rest ≤ c.rest.length := by
      have hpos := List.length_pos_iff.2 hne
      have hname := variableLength_le (c.advance 1).rest false
      rw [Cursor.length_advance] at hname
      omega
    have hword := hc.alike hws hlength hparts
    have hbehind := hword.behind
    rw [← Cursor.advance_advance, ← Cursor.advance_advance] at hbehind
    rw [hc.variableLength_eq hws hne hparts]
    exact .ite (fun _ => .fail) (fun _ => follows_continue hs
      (unplaced_single (hword.token_advance .variable (Nat.le_refl _))) hbehind)
  · split
    · exact .fail
    · exact .inside List.mem_cons_self hclear

theorem follows_string {c c' : Cursor} {e e' : LexError} (hc : Spread ws p c c')
    (hquote : startsWith isQuote c.rest) :
    Follows text ws p
      (match literal? c .string with
        | some (token, next) => s.continue [token] .operator next
        | none => .fail e)
      (match literal? c' .string with
        | some (token, next) => s'.continue [token] .operator next
        | none => .fail e') := by
  cases hl : literal? c .string with
  | none => exact .fail
  | some read =>
    obtain ⟨t, next⟩ := read
    obtain ⟨hkind, hopen, hclose⟩ := ends_of_literal? hl hquote
    by_cases hclear : t.Clear text p
    · have hparts : ¬(c.offset < p ∧ p < next.offset) := by
        have houtside := hclear.of_literal (.inl hkind)
        omega
      obtain ⟨t', next', hl', ht, hnext⟩ := hc.literal?_eq hws hl hparts
      rw [hl']
      exact follows_continue hs (unplaced_single ht) hnext
    · exact .inside List.mem_cons_self hclear

theorem follows_number {c c' : Cursor} {m m' : Move} (hc : Spread ws p c c')
    (hother : Follows text ws p m m') :
    Follows text ws p
      (if opensNumeral c.rest then
        s.continue [c.token .number (numberLength c.rest)] .operator
          (c.advance (numberLength c.rest))
      else m)
      (if opensNumeral c'.rest then
        s'.continue [c'.token .number (numberLength c'.rest)] .operator
          (c'.advance (numberLength c'.rest))
      else m') := by
  by_cases hinside : opensNumeral c.rest ∧ Parts p c (numberLength c.rest)
  · rw [if_pos hinside.1]
    exact .inside List.mem_cons_self (unclear_of_parts hinside.2 .number)
  · have hparts (hopens : opensNumeral c.rest) : ¬Parts p c (numberLength c.rest) :=
      fun hparts => hinside ⟨hopens, hparts⟩
    rw [hc.opensNumeral_eq hws hparts]
    refine .ite (fun hopens => ?_) (fun _ => hother)
    rw [hc.numberLength_eq hws (hparts hopens)]
    exact follows_token hs (hc.alike hws (numberLength_le _) (hparts hopens)) .number

theorem follows_operandMove : Follows text ws p (operandMove s) (operandMove s') := by
  have hc := hs.cursor
  cases hrest : s.cursor.skipBlank.rest with
  | nil =>
    rw [operandMove_nil hrest, operandMove_nil (hc.eq_nil hrest)]
    exact follows_closingMove hs hws hc
  | cons found rest =>
    obtain ⟨rest', hrest'⟩ := hc.exists_cons hrest
    rw [operandMove_cons hrest, operandMove_cons hrest']
    simp only
    generalize s.cursor.skipBlank = c at hc hrest
    generalize s'.cursor.skipBlank = c' at hc hrest'
    have hne : c.rest ≠ [] := by
      rw [hrest]
      exact List.cons_ne_nil found rest
    have hdrop : rest = c.rest.drop 1 := by rw [hrest]; rfl
    have hdrop' : rest' = c'.rest.drop 1 := by rw [hrest']; rfl
    have hnumber : (found.isDigit || (found == '.' && startsWith Char.isDigit rest))
        = opensNumeral c.rest := by rw [hrest]; rfl
    have hnumber' : (found.isDigit || (found == '.' && startsWith Char.isDigit rest'))
        = opensNumeral c'.rest := by rw [hrest']; rfl
    rw [hnumber, hnumber', hdrop, hdrop']
    refine .ite (fun _ => follows_root hs hws hc hne) (fun _ => .ite (fun hsign => ?_)
      (fun _ => .ite (fun hquote => ?_) (fun _ => follows_number hs hws hc ?_)))
    · exact follows_variable hs hws hc (hsign ▸ hrest)
    · exact follows_string hs hws hc (by rwa [hrest])
    · exact .ite (fun _ => follows_continue hs rfl (hc.skipBlank hws)) (fun _ => .fail)

theorem follows_operatorMove : Follows text ws p (operatorMove s) (operatorMove s') := by
  have hc := hs.cursor
  cases hrest : s.cursor.skipBlank.rest with
  | nil =>
    rw [operatorMove_nil hrest, operatorMove_nil (hc.eq_nil hrest)]
    exact follows_closingMove hs hws hc
  | cons found rest =>
    obtain ⟨rest', hrest'⟩ := hc.exists_cons hrest
    have hempty : s'.enclosures.isEmpty = s.enclosures.isEmpty := by
      rw [← List.isEmpty_map (f := Enclosure.bracket),
        ← List.isEmpty_map (f := Enclosure.bracket) (l := s.enclosures)]
      exact congrArg List.isEmpty hs.brackets
    rw [operatorMove_cons hrest, operatorMove_cons hrest', hempty]
    generalize s.cursor.skipBlank = c at hc
    generalize s'.cursor.skipBlank = c' at hc
    refine .ite (fun _ => follows_closingMove hs hws hc) (fun _ => ?_)
    by_cases hparts : Parts p c (operatorLength c.rest)
    · simp only
      split
      -- where no operator is read the first run fails, whatever the other one reads there
      · exact .fail
      · exact .inside List.mem_cons_self (unclear_of_parts hparts .operator)
    · by_cases hn : operatorLength c.rest = 0
      · simp only
        rw [if_pos hn]
        exact .fail
      · simp only
        rw [hc.operatorLength_eq hws hn hparts, if_neg hn, if_neg hn]
        exact follows_token hs (hc.alike hws (operatorLength_le _) hparts) .operator

/-- A move in the text with the white space does what it does in the text without it. -/
theorem follows_move (limit : Nat) (hleads : (Cursor.start text).Leads s.cursor) :
    Follows text ws p (move limit s) (move limit s') := by
  unfold move
  rw [hs.mode]
  cases s.mode with
  | operand => exact follows_operandMove hs hws
  | step => exact follows_stepMove hs hws hleads
  | trail => exact follows_trailMove hs hws
  | operator => exact follows_operatorMove hs hws

end Moves

/-! ### Whole texts -/

/-- A run that emits no token with the white space inside is followed to its end. -/
theorem follows_run {text : String} {ws : List Char} {p limit : Nat} (hws : ∀ x ∈ ws, x ∈ spaces) :
    ∀ s ts, run limit s = .ok ts → (Cursor.start text).Leads s.cursor →
      (∀ t ∈ ts, t.Clear text p) → ∀ s', Spaced ws p s s' →
      ∃ us, run limit s' = .ok us ∧ us.map Token.unplaced = ts.map Token.unplaced := by
  refine run_induction (fun s hmove => ?_) (fun s tokens next rest hmove _ ih => ?_)
  · intro hleads _ s' hs
    have hfollows := follows_move hs hws limit hleads
    rw [hmove] at hfollows
    generalize hmove' : move limit s' = m at hfollows
    cases hfollows
    exact ⟨[], run_eq_ok.2 (.inl ⟨hmove', rfl⟩), rfl⟩
  · intro hleads hclear s' hs
    obtain ⟨htokens, hrest⟩ := List.forall_mem_append.1 hclear
    have hfollows := follows_move hs hws limit hleads
    rw [hmove] at hfollows
    generalize hmove' : move limit s' = m at hfollows
    cases hfollows with
    | inside hmem hunclear => exact absurd (htokens _ hmem) hunclear
    | @emit _ tokens' _ next' hsame hspaced =>
      have hnext := hleads.trans (tiles_of_move hmove).leads
      obtain ⟨us, hus, hsame'⟩ := ih hnext hrest next' hspaced
      refine ⟨tokens' ++ us, run_eq_ok.2 (.inr ⟨tokens', next', us, hmove', hus, rfl⟩), ?_⟩
      rw [List.map_append, List.map_append, hsame, hsame']

end Lexer

/-- White space between the units of a text is irrelevant: put in at an offset that is not inside of
a unit, it changes nothing but the offsets of the tokens. -/
theorem tokenize_insert {limit : Nat} {front blank back : String} {ts : List Token}
    (h : tokenize limit (front ++ back) = .ok ts)
    (hplace : ∀ t ∈ ts, ∀ u ∈ t.units (front ++ back),
      ¬(u.1 < utf8Length front.toList ∧ utf8Length front.toList < u.2))
    (hblank : ∀ c ∈ blank.toList, c ∈ [' ', '\t', '\r', '\n']) :
    ∃ us, tokenize limit (front ++ blank ++ back) = .ok us ∧
      us.map Token.unplaced = ts.map Token.unplaced := by
  have hstart : Lexer.Spread blank.toList (utf8Length front.toList)
      (Cursor.start (front ++ back)).skipBlank
      (Cursor.start (front ++ blank ++ back)).skipBlank := by
    refine Lexer.spread_of_append hblank (f := front.toList) (b := back.toList) ?_ ?_ ?_
    · exact String.toList_append
    · rw [Cursor.start, String.toList_append, String.toList_append, List.append_assoc]
    · exact Nat.zero_add _
  exact Lexer.follows_run hblank (Lexer.start (front ++ back)) ts h (.refl _) hplace
    (Lexer.start (front ++ blank ++ back)) ⟨rfl, rfl, hstart⟩

/-- Behind an axis and in front of its colons, in a text with a variable and a literal. -/
theorem tokenize_insert_axis :
    ∃ front blank back ts, front = "$é = child" ∧ blank = " \n" ∧ back = "::a['ñ']" ∧
      tokenize 1 (front ++ back) = .ok ts ∧
      (∀ t ∈ ts, ∀ u ∈ t.units (front ++ back),
        ¬(u.1 < utf8Length front.toList ∧ utf8Length front.toList < u.2)) ∧
      (∀ c ∈ blank.toList, c ∈ [' ', '\t', '\r', '\n']) ∧
      ∃ us, tokenize 1 (front ++ blank ++ back) = .ok us ∧
        us.map Token.unplaced = ts.map Token.unplaced := by
  have htokens : (tokenize 1 ("$é = child" ++ "::a['ñ']")).map
      (fun ts => decide (∀ t ∈ ts, ∀ u ∈ t.units ("$é = child" ++ "::a['ñ']"),
        ¬(u.1 < utf8Length "$é = child".toList ∧ utf8Length "$é = child".toList < u.2)))
      = .ok true := by decide +kernel
  obtain ⟨ts, hts, hplace⟩ := map_eq_ok.1 htokens
  have hblank : ∀ c ∈ " \n".toList, c ∈ [' ', '\t', '\r', '\n'] := by simp
  exact ⟨_, _, _, ts, rfl, rfl, rfl, hts, of_decide_eq_true hplace, hblank,
    tokenize_insert hts (of_decide_eq_true hplace) hblank⟩

end XPath
