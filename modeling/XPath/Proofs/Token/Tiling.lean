import XPath.Proofs.Token.Branches
import XPath.Proofs.Token.Lexed
import XPath.Proofs.Token.Place

/-!
# Tokens lie in the text one behind the other

The tokens of a text are pieces of it, in the order in which they stand there.  What lies between
them is white space, quotes, the sign of a variable, colons and parentheses.

* `Cursor.Skips`: a later place, with nothing that belongs to a token on the way;
* `Tiles`: the tokens from one place of a text up to another, and nothing else but what is skipped;
* `tiles_of_move`, `tiles_of_run`: a move and a run read on along their tokens;
* `Tiles.slice`, `Tiles.ordered`, `Tiles.covers`: where the tokens stand;
* `tokenize_tiles`: the tokens of a whole text.
-/

namespace XPath

def Token.stop (t : Token) : Nat :=
  t.offset + utf8Length t.text.toList

/-- The characters that need not belong to a token. -/
def isGap (c : Char) : Bool :=
  Text.isBlank c || ['\'', '"', '$', ':', '(', ')'].contains c

/-! ### Places with a gap between them -/

/-- The second place lies behind the first one, and no token has to lie between them. -/
def Cursor.Skips (c d : Cursor) : Prop :=
  ∃ w, c.rest = w ++ d.rest ∧ d.offset = c.offset + utf8Length w ∧ ∀ x ∈ w, isGap x

namespace Cursor

variable {c d e : Cursor}

theorem Skips.refl (c : Cursor) : c.Skips c :=
  ⟨[], rfl, rfl, fun _ hx => absurd hx List.not_mem_nil⟩

theorem Skips.trans (h : c.Skips d) (h' : d.Skips e) : c.Skips e := by
  obtain ⟨w, hrest, hoffset, hw⟩ := h
  obtain ⟨w', hrest', hoffset', hw'⟩ := h'
  refine ⟨w ++ w', ?_, ?_, fun x hx => (List.mem_append.1 hx).elim (hw x) (hw' x)⟩
  · rw [hrest, hrest', List.append_assoc]
  · rw [hoffset', hoffset, utf8Length_append, Nat.add_assoc]

theorem Skips.leads (h : c.Skips d) : c.Leads d := by
  obtain ⟨w, hrest, hoffset, -⟩ := h
  exact ⟨w, hrest, hoffset⟩

theorem Skips.skipBlank (h : c.Skips d) : c.Skips d.skipBlank := by
  refine h.trans ⟨d.rest.takeWhile Text.isBlank, List.takeWhile_append_dropWhile.symm, rfl, ?_⟩
  intro x hx
  have hblank : Text.isBlank x := List.all_eq_true.1 List.all_takeWhile x hx
  rw [isGap, hblank, Bool.true_or]

/-- The characters `w` that stand at the place are skipped. -/
theorem Skips.advance {w cs : List Char} (h : c.Skips d) (hd : d.rest = w ++ cs)
    (hw : w.all isGap) : c.Skips (d.advance w.length) := by
  refine h.trans ⟨w, ?_, ?_, List.all_eq_true.1 hw⟩
  · rw [Lexer.rest_advance, hd, List.drop_left]
  · rw [Cursor.advance, hd, List.take_left]

theorem stop_token (c : Cursor) (kind : Token.Kind) (n : Nat) :
    (c.token kind n).stop = (c.advance n).offset := by
  rw [Token.stop, token, String.toList_ofList, advance]

end Cursor

/-! ### Tokens between two places -/

/-- A character of two texts one behind the other stands in the first or in the second. -/
theorem split_of_append_eq {w r u v : List Char} {x : Char} (h : w ++ r = u ++ x :: v) :
    (∃ w', w = u ++ x :: w') ∨ ∃ u', u = w ++ u' ∧ r = u' ++ x :: v := by
  rcases List.append_eq_append_iff.1 h with ⟨u', hu, hr⟩ | ⟨w', hw, hr⟩
  · exact .inr ⟨u', hu, hr⟩
  · cases w' with
    | nil => exact .inr ⟨[], by simp [hw], by simpa using hr.symm⟩
    | cons y w' =>
      obtain ⟨rfl, -⟩ := List.cons.inj hr
      exact .inl ⟨w', hw⟩

/-- The tokens lie between the two places one behind the other, and outside of them is nothing that
has to belong to a token. -/
inductive Tiles : Cursor → List Token → Cursor → Prop
  | nil {c d} (skips : c.Skips d) : Tiles c [] d
  | cons {c m d ts} (skips : c.Skips m) (kind : Token.Kind) (n : Nat)
    (more : Tiles (m.advance n) ts d) : Tiles c (m.token kind n :: ts) d

namespace Tiles

variable {c d e m : Cursor} {ts us : List Token}

theorem skips (h : c.Skips d) (h' : Tiles d ts e) : Tiles c ts e := by
  cases h' with
  | nil h' => exact .nil (h.trans h')
  | cons h' kind n more => exact .cons (h.trans h') kind n more

theorem append (h : Tiles c ts d) (h' : Tiles d us e) : Tiles c (ts ++ us) e := by
  induction h with
  | nil hskips => exact h'.skips hskips
  | cons hskips kind n more ih => exact .cons hskips kind n (ih h')

/-- A single token with something skipped on both sides. -/
theorem one (h : c.Skips m) (kind : Token.Kind) (n : Nat) (h' : (m.advance n).Skips d) :
    Tiles c [m.token kind n] d :=
  .cons h kind n (.nil h')

theorem leads (h : Tiles c ts d) : c.Leads d := by
  induction h with
  | nil hskips => exact hskips.leads
  | cons hskips kind n more ih => exact (hskips.leads.advance n).trans ih

/-- Every token is a piece of the text at its offset. -/
theorem slice (h : Tiles c ts d) :
    ∀ t ∈ ts, ∃ p : Cursor, c.Leads p ∧ p.offset = t.offset ∧ t.text.toList <+: p.rest := by
  induction h with
  | nil hskips => exact fun t ht => absurd ht List.not_mem_nil
  | @cons c m d ts hskips kind n more ih =>
    intro t ht
    rcases List.mem_cons.1 ht with rfl | ht
    · refine ⟨m, hskips.leads, rfl, ?_⟩
      rw [Cursor.token, String.toList_ofList]
      exact List.take_prefix n m.rest
    · obtain ⟨p, hp, hoffset, htext⟩ := ih t ht
      exact ⟨p, (hskips.leads.advance n).trans hp, hoffset, htext⟩

/-- Every token ends in front of those behind it. -/
theorem ordered (h : Tiles c ts d) : ts.Pairwise fun t u => t.stop ≤ u.offset := by
  induction h with
  | nil hskips => exact .nil
  | @cons c m d ts hskips kind n more ih =>
    refine List.pairwise_cons.2 ⟨fun u hu => ?_, ih⟩
    obtain ⟨p, hp, hoffset, -⟩ := more.slice u hu
    have hle := hp.offset_le
    rwa [hoffset, ← Cursor.stop_token m kind n] at hle

/-- A character between the two places belongs to a token or to a gap. -/
theorem covers (h : Tiles c ts d) {x : Char} {v : List Char} (hv : d.rest.length ≤ v.length) :
    ∀ u, c.rest = u ++ x :: v →
      isGap x ∨ ∃ t ∈ ts,
        t.offset ≤ c.offset + utf8Length u ∧ c.offset + utf8Length u < t.stop := by
  induction h with
  | nil hskips =>
    obtain ⟨w, hrest, -, hw⟩ := hskips
    intro u hu
    rcases split_of_append_eq (hrest.symm.trans hu) with ⟨w', rfl⟩ | ⟨u', -, hr⟩
    · exact .inl (hw x (by simp))
    · have hlength := congrArg List.length hr
      simp only [List.length_append, List.length_cons] at hlength
      omega
  | @cons c m d ts hskips kind n more ih =>
    obtain ⟨w, hrest, hoffset, hw⟩ := hskips
    intro u hu
    rcases split_of_append_eq (hrest.symm.trans hu) with ⟨w', rfl⟩ | ⟨u, rfl, hm⟩
    · exact .inl (hw x (by simp))
    · rw [← List.take_append_drop n m.rest] at hm
      have hplace : c.offset + utf8Length (w ++ u) = m.offset + utf8Length u := by
        rw [utf8Length_append, hoffset, Nat.add_assoc]
      rw [hplace]
      rcases split_of_append_eq hm with ⟨w', hw'⟩ | ⟨u', rfl, hr⟩
      · refine .inr ⟨m.token kind n, List.mem_cons_self, Nat.le_add_right _ _, ?_⟩
        have hpos := x.utf8Size_pos
        rw [Cursor.stop_token]
        show m.offset + utf8Length u < m.offset + utf8Length (m.rest.take n)
        rw [hw', utf8Length_append, utf8Length_cons]
        omega
      · refine (ih hv u' hr).imp_right ?_
        rintro ⟨t, ht, hle, hlt⟩
        rw [Cursor.advance, Nat.add_assoc, ← utf8Length_append] at hle hlt
        exact ⟨t, List.mem_cons_of_mem _ ht, hle, hlt⟩

end Tiles

/-! ### Moves -/

namespace Lexer

variable {limit n : Nat} {s next : State} {tokens us : List Token} {c paren : Cursor}

theorem tiles_of_continue {mode : Mode} (h : s.continue tokens mode c = .emit us next)
    (tiles : Tiles s.cursor tokens c) : Tiles s.cursor us next.cursor := by
  obtain ⟨rfl, rfl⟩ := State.continue_eq_emit.1 h
  exact tiles

theorem tiles_of_enter {e : Enclosure} (h : s.enter limit tokens c e = .emit us next)
    (tiles : Tiles s.cursor tokens c) : Tiles s.cursor us next.cursor := by
  obtain ⟨-, rfl, rfl⟩ := State.enter_eq_emit.1 h
  exact tiles

/-- A literal lies between two quotes. -/
theorem tiles_of_literal? {nx : Cursor} {kind : Token.Kind} {t : Token}
    (h : literal? c kind = some (t, nx)) (hq : startsWith isQuote c.rest) : Tiles c [t] nx := by
  obtain ⟨q, w, cs, hc, -, rfl, rfl⟩ := exists_of_literal? h
  have hgap : [q].all isGap := by
    rw [hc, startsWith_cons] at hq
    rcases eq_of_isQuote hq with rfl | rfl <;> decide
  have hbody : (c.advance 1).rest = w ++ ([q] ++ cs) := by
    rw [rest_advance, hc]
    rfl
  have hend := (Cursor.Skips.refl ((c.advance 1).advance w.length)).advance
    (rest_advance_append hbody) hgap
  have hplace : ((c.advance 1).advance w.length).advance [q].length = c.advance (w.length + 2) := by
    rw [Cursor.advance_advance, Cursor.advance_advance, List.length_singleton, Nat.add_comm 1]
  rw [hplace] at hend
  exact .one ((Cursor.Skips.refl c).advance (w := [q]) hc hgap) kind w.length hend

theorem tiles_of_nodeTypeMove (h : nodeTypeMove s c n paren = .emit us next)
    (hc : s.cursor.Skips c) (hp : (c.advance n).Skips paren)
    (hparen : ∃ rest, paren.rest = '(' :: rest) : Tiles s.cursor us next.cursor := by
  obtain ⟨rest, hparen⟩ := hparen
  have hinside := (hp.advance (w := ['(']) hparen (by decide)).skipBlank
  unfold nodeTypeMove at h
  simp only at h
  split at h
  · rename_i htarget
    split at h
    · rename_i t nx hl
      split at h
      · rename_i hend
        refine tiles_of_continue h (.cons hc .nodeType n (.skips hinside ?_))
        have htiles := tiles_of_literal? hl htarget.2
        have hclose := (Cursor.Skips.refl nx).skipBlank.advance (w := [')']) hend (by decide)
        exact htiles.append (.nil hclose)
      · simp at h
    · simp at h
  · split at h
    · rename_i hend
      exact tiles_of_continue h
        (.one hc .nodeType n (hinside.advance (w := [')']) hend (by decide)))
    · simp at h

theorem tiles_of_callMove (h : callMove s limit c n paren = .emit us next)
    (hc : s.cursor.Skips c) (hp : (c.advance n).Skips paren)
    (hparen : ∃ rest, paren.rest = '(' :: rest) : Tiles s.cursor us next.cursor := by
  obtain ⟨rest, hparen⟩ := hparen
  have hinside := (hp.advance (w := ['(']) hparen (by decide)).skipBlank
  unfold callMove at h
  simp only at h
  split at h
  · exact tiles_of_continue h (.cons hc .call n (.one hinside .callEnd 1 (.refl _)))
  · exact tiles_of_enter h (.cons hc .call n (.one hinside .argument 0 (.refl _)))

theorem tiles_of_stepMove (h : stepMove s limit = .emit us next) :
    Tiles s.cursor us next.cursor := by
  have hc := (Cursor.Skips.refl s.cursor).skipBlank
  unfold stepMove at h
  simp only at h
  generalize s.cursor.skipBlank = c at h hc
  generalize stepWordLength c.rest = n at h
  have hnext := (Cursor.Skips.refl (c.advance n)).skipBlank
  split at h
  · rename_i hcolons
    split at h
    · exact tiles_of_continue h
        (.one hc .axis n (hnext.advance (w := [':', ':']) hcolons (by decide)))
    · simp at h
  · rename_i hcolon
    split at h
    · simp at h
    · exact tiles_of_continue h
        (.one hc .nameSpace n (hnext.advance (w := [':']) hcolon (by decide)))
  · rename_i hparen
    split at h
    · simp at h
    · split at h
      · exact tiles_of_nodeTypeMove h hc hnext ⟨_, hparen⟩
      · exact tiles_of_callMove h hc hnext ⟨_, hparen⟩
  · split at h
    · exact tiles_of_continue h (.one hc .name n hnext)
    · rename_i hn
      have hn : n = 0 := Decidable.not_not.1 hn
      subst hn
      split at h
      · exact tiles_of_continue h (.one (hc.trans hnext) .attributeSign 1 (.refl _))
      · split at h <;> simp at h

theorem tiles_of_trailMove (h : trailMove s limit = .emit us next) :
    Tiles s.cursor us next.cursor := by
  have hc := (Cursor.Skips.refl s.cursor).skipBlank
  unfold trailMove at h
  simp only at h
  split at h
  · exact tiles_of_enter h (.one hc .predicateStart 1 (.refl _))
  · exact tiles_of_continue h (.one hc .descent 2 (.refl _))
  · exact tiles_of_continue h (.one hc .slash 1 (.refl _))
  · exact tiles_of_continue h (.one hc .pathEnd 0 (.refl _))

theorem tiles_of_closingMove (h : closingMove s c = .emit us next) (hc : s.cursor.Skips c) :
    Tiles s.cursor us next.cursor := by
  unfold closingMove at h
  split at h
  · simp at h
  · split at h
    · obtain ⟨rfl, rfl⟩ := State.emit_eq_emit.1 h
      exact .one hc .predicateEnd 1 (.refl _)
    · simp at h
  · split at h
    · simp at h
    · obtain ⟨rfl, rfl⟩ := State.emit_eq_emit.1 h
      exact .one hc .callEnd 1 (.refl _)
    · exact tiles_of_continue h (.one hc .argument 1 (.refl _))
    · simp at h

theorem tiles_of_operandMove (h : operandMove s = .emit us next) :
    Tiles s.cursor us next.cursor := by
  have hc := (Cursor.Skips.refl s.cursor).skipBlank
  unfold operandMove at h
  simp only at h
  generalize s.cursor.skipBlank = c at h hc
  split at h
  · exact tiles_of_closingMove h hc
  · exact tiles_of_continue h (.one hc .rootDescent 2 (.refl _))
  · have hnext := (Cursor.Skips.refl (c.advance 1)).skipBlank
    split at h
    · exact tiles_of_continue h (.one hc .rootSlash 1 hnext)
    · exact tiles_of_continue h (.cons hc .rootSlash 1 (.one hnext .pathEnd 0 (.refl _)))
  · rename_i hsign
    split at h
    · simp at h
    · exact tiles_of_continue h
        (.one (hc.advance (w := ['$']) hsign (by decide)) .variable _ (.refl _))
  · rename_i found rest _ _ _ hfound
    split at h
    · rename_i hquote
      split at h
      · rename_i hl
        have htiles := tiles_of_literal? hl (by rwa [hfound])
        exact tiles_of_continue h (.skips hc htiles)
      · simp at h
    · split at h
      · exact tiles_of_continue h (.one hc .number _ (.refl _))
      · split at h
        · exact tiles_of_continue h (.nil hc)
        · simp at h

theorem tiles_of_operatorMove (h : operatorMove s = .emit us next) :
    Tiles s.cursor us next.cursor := by
  have hc := (Cursor.Skips.refl s.cursor).skipBlank
  unfold operatorMove at h
  simp only at h
  split at h
  · exact tiles_of_closingMove h hc
  · split at h
    · exact tiles_of_closingMove h hc
    · split at h
      · simp at h
      · exact tiles_of_continue h (.one hc .operator _ (.refl _))

/-- A move reads on along its tokens. -/
theorem tiles_of_move (h : move limit s = .emit us next) : Tiles s.cursor us next.cursor := by
  unfold move at h
  cases hm : s.mode with
  | operand => exact tiles_of_operandMove (by simpa only [hm] using h)
  | step => exact tiles_of_stepMove (by simpa only [hm] using h)
  | trail => exact tiles_of_trailMove (by simpa only [hm] using h)
  | operator => exact tiles_of_operatorMove (by simpa only [hm] using h)

/-- Reading stops where nothing is left but white space. -/
theorem rest_of_stop (h : move limit s = .stop) : s.cursor.skipBlank.rest = [] := by
  have hes : s.enclosures = [] := List.map_eq_nil_iff.1 (mode_of_stop h).2
  cases hc : s.cursor.skipBlank.rest with
  | nil => rfl
  | cons found rest =>
    exfalso
    unfold move at h
    cases hm : s.mode with
    | operand =>
      simp only [hm, operandMove_cons hc] at h
      repeat' split at h
      all_goals simp [State.continue, State.emit] at h
    | step => exact stepMove_ne_stop s limit (by simpa only [hm] using h)
    | trail => exact trailMove_ne_stop s limit (by simpa only [hm] using h)
    | operator =>
      simp only [hm, operatorMove_cons hc, hes, List.isEmpty_nil, Bool.not_true, Bool.and_false,
        Bool.false_eq_true, if_false] at h
      split at h <;> simp [State.continue, State.emit] at h

/-! ### Whole texts -/

/-- A run reads on along its tokens to the end of the text. -/
theorem tiles_of_run :
    ∀ s ts, run limit s = .ok ts → ∃ d : Cursor, d.rest = [] ∧ Tiles s.cursor ts d := by
  refine run_induction (fun s hmove => ?_) (fun s tokens next rest hmove _ ih => ?_)
  · exact ⟨s.cursor.skipBlank, rest_of_stop hmove, .nil (Cursor.Skips.refl _).skipBlank⟩
  · obtain ⟨d, hd, htiles⟩ := ih
    exact ⟨d, hd, (tiles_of_move hmove).append htiles⟩

end Lexer

/-- The tokens of a text tile it: each of them stands in the text at its offset, each ends in front
of those behind it, and a character outside of them all is white space, a quote, the sign of a
variable, a colon or a parenthesis. -/
theorem tokenize_tiles {limit : Nat} {s : String} {ts : List Token}
    (h : tokenize limit s = .ok ts) :
    (∀ t ∈ ts, ∃ front back, s.toList = front ++ t.text.toList ++ back ∧
      utf8Length front = t.offset) ∧
    (ts.Pairwise fun t u => t.offset + utf8Length t.text.toList ≤ u.offset) ∧
    ∀ front x back, s.toList = front ++ x :: back →
      (∃ t ∈ ts, t.offset ≤ utf8Length front ∧
        utf8Length front < t.offset + utf8Length t.text.toList) ∨
      Text.isBlank x ∨ x ∈ ['\'', '"', '$', ':', '(', ')'] := by
  obtain ⟨d, hd, htiles⟩ := Lexer.tiles_of_run (Lexer.start s) ts h
  refine ⟨fun t ht => ?_, htiles.ordered, fun front x back hs => ?_⟩
  · obtain ⟨p, ⟨front, hrest, hoffset⟩, hp, back, htext⟩ := htiles.slice t ht
    refine ⟨front, back, ?_, ?_⟩
    · rw [List.append_assoc, htext]
      exact hrest
    · rw [← hp, hoffset]
      exact (Nat.zero_add _).symm
  · have hbehind : d.rest.length ≤ back.length := by
      rw [hd]
      exact Nat.zero_le _
    rcases htiles.covers hbehind front hs with hgap | ⟨t, ht, hle, hlt⟩
    · rw [isGap, Bool.or_eq_true, List.contains_iff_mem] at hgap
      exact .inr hgap
    · rw [show (Lexer.start s).cursor.offset = 0 from rfl, Nat.zero_add] at hle hlt
      exact .inl ⟨t, ht, hle, hlt⟩

/-- Letters of two and three bytes, and each kind of gap but the parentheses. -/
theorem tokenize_tiles_letters :
    ∃ s ts, s = "é/@p : ñ[$x != '日']" ∧ tokenize 1 s = .ok ts ∧
      (ts.map fun t => (t.text, t.offset)) = [("é", 0), ("/", 2), ("@", 3), ("p", 4), ("ñ", 8),
        ("[", 10), ("x", 12), ("", 14), ("!=", 14), ("日", 18), ("]", 22), ("", 23)] ∧
      (∀ t ∈ ts, ∃ front back, s.toList = front ++ t.text.toList ++ back ∧
        utf8Length front = t.offset) ∧
      (ts.Pairwise fun t u => t.offset + utf8Length t.text.toList ≤ u.offset) ∧
      ∀ front x back, s.toList = front ++ x :: back →
        (∃ t ∈ ts, t.offset ≤ utf8Length front ∧
          utf8Length front < t.offset + utf8Length t.text.toList) ∨
        Text.isBlank x ∨ x ∈ ['\'', '"', '$', ':', '(', ')'] := by
  have htokens : (tokenize 1 "é/@p : ñ[$x != '日']").map
      (fun ts => ts.map fun t => (t.text, t.offset)) = .ok [("é", 0), ("/", 2), ("@", 3), ("p", 4),
        ("ñ", 8), ("[", 10), ("x", 12), ("", 14), ("!=", 14), ("日", 18), ("]", 22), ("", 23)] := by
    decide +kernel
  obtain ⟨ts, hts, hplaces⟩ := map_eq_ok.1 htokens
  exact ⟨_, ts, rfl, hts, hplaces, tokenize_tiles hts⟩

end XPath
