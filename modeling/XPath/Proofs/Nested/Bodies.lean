import XPath.Proofs.Expr.Levels
import XPath.Proofs.Expr.Rendering
import XPath.Proofs.Nested.Turn
import XPath.Proofs.Nested.Within
import XPath.Proofs.Token.Limit

/-!
# Arguments and predicates are texts of their own

The text of an argument or a predicate, broken into tokens on its own, has the tokens that it has
where it stands, at shifted places, and it stands for the same expression.

* `Parser.Body`, `Parser.Body.all`: the arguments and predicates among tokens;
* `Parser.Body.Written`: their text;
* `inside_of_run`: a run up to the end of an enclosure and the run on the inner text alone;
* `tokenize_bodies`: the arguments and predicates of a text.
-/

namespace XPath

/-! ### Arguments and predicates among tokens -/

namespace Parser

/-- An argument or a predicate among tokens. -/
structure Body where
  /-- How many enclosures are open inside it, its own included. -/
  level : Nat
  /-- The token that it begins with. -/
  opening : Token
  /-- Its tokens. -/
  inside : List Token
  /-- The token behind it. -/
  closing : Option Token

/-- The body behind a token and in front of the end of an enclosure. -/
def Body.behind (level : Nat) (opening : Token) (ts : List Token) : Body :=
  ⟨level, opening, body 0 ts, (ts.drop (body 0 ts).length).head?⟩

def Body.all : Nat → List Token → List Body
  | _, [] => []
  | depth, t :: ts =>
    if t.kind = .argument ∨ t.kind = .predicateStart then
      .behind (t.depthBehind depth) t ts :: all (t.depthBehind depth) ts
    else all (t.depthBehind depth) ts

/-- The text of an argument or a predicate of `s`, which stands strictly between the character that
opens it and the one that ends it, and the offset at which this text begins. -/
def Body.Written (s : String) (b : Body) (source : String) (origin : Nat) : Prop :=
  ∃ (p q : Cursor) (u : Token), (Cursor.start s).Leads p ∧ Lexer.OpensAt b.opening p ∧
    (p.advance 1).offset = origin ∧ (p.advance 1).rest = source.toList ++ q.rest ∧
    q.offset = origin + utf8Length source.toList ∧ Lexer.ClosesAt u q ∧ b.closing = some u

/-- An argument or a predicate has one text, at one place. -/
theorem Body.Written.unique {s : String} {b : Body} {source source' : String} {origin origin' : Nat}
    (h : b.Written s source origin) (h' : b.Written s source' origin') :
    source = source' ∧ origin = origin' := by
  obtain ⟨p, q, u, hp, hopens, rfl, hrest, hq, hcloses, hu⟩ := h
  obtain ⟨p', q', u', hp', hopens', rfl, hrest', hq', hcloses', hu'⟩ := h'
  have hsame : p = p' := hopens.unique hopens' hp hp'
  subst hsame
  have hend : q = q' := by
    have huu : u = u' := Option.some.inj (hu.symm.trans hu')
    have hoffset : q.offset = q'.offset := by
      rw [← hcloses.offset, ← hcloses'.offset, huu]
    exact Cursor.Leads.unique ⟨_, hrest, hq⟩ ⟨_, hrest', hq'⟩ hoffset
  rw [hrest, hend] at hrest'
  exact ⟨String.toList_inj.1 (List.append_cancel_right hrest'), rfl⟩

/-- The text of an argument or a predicate has its tokens, at shifted places, under what is left of
the limit. -/
def Body.Alone (limit : Nat) (s : String) (b : Body) : Prop :=
  (1 ≤ b.level ∧ b.level ≤ limit) ∧ ∃ source origin us, b.Written s source origin ∧
    tokenize (limit - b.level) source = .ok us ∧ b.inside = us.map (Token.shift origin)

theorem Body.map_inside_all (ts : List Token) :
    ∀ depth, (all depth ts).map Body.inside = bodies ts := by
  induction ts with
  | nil => exact fun depth => rfl
  | cons t ts ih =>
    intro depth
    rw [all, bodies]
    split
    · rw [List.map_cons, ih]
      rfl
    · exact ih _

variable {t : Token} {ts us : List Token} {depth : Nat}

theorem Body.all_cons_of_ne (ht : t.kind ≠ .argument) (ht' : t.kind ≠ .predicateStart) :
    all depth (t :: ts) = all (t.depthBehind depth) ts := by
  rw [all, if_neg (not_or.2 ⟨ht, ht'⟩)]

theorem Body.all_cons_of_call (ht : t.kind = .call) :
    all depth (t :: ts) = all (depth + 1) ts := by
  rw [all_cons_of_ne (by simp [ht]) (by simp [ht]), Token.depthBehind_of_opens (by rw [ht]; rfl)]

theorem Body.all_cons_of_predicateStart (ht : t.kind = .predicateStart) :
    all depth (t :: ts) = .behind (depth + 1) t ts :: all (depth + 1) ts := by
  rw [all, if_pos (.inr ht), Token.depthBehind_of_opens (by rw [ht]; rfl)]

theorem Body.all_cons_of_argument (ht : t.kind = .argument) :
    all depth (t :: ts) = .behind depth t ts :: all depth ts := by
  rw [all, if_pos (.inl ht), Token.depthBehind_of_flat (by rw [ht]; exact ⟨rfl, rfl⟩)]

theorem Body.all_cons_of_closes (ht : t.kind.closes) :
    all (depth + 1) (t :: ts) = all depth ts := by
  have hne {k : Token.Kind} (hk : k.closes = false) : t.kind ≠ k := by
    rintro rfl
    exact Bool.false_ne_true (hk.symm.trans ht)
  rw [all_cons_of_ne (hne rfl) (hne rfl), Token.depthBehind_of_closes ht]

theorem body_cons_of_opens (ht : t.kind.opens) :
    body depth (t :: ts) = t :: body (depth + 1) ts := by
  have hinside : t.kind.closes = false ∧ t.kind ≠ .argument := by
    cases hk : t.kind <;> simp_all [Token.Kind.opens, Token.Kind.closes]
  rw [body_cons fun _ => hinside, Token.depthBehind_of_opens ht]

theorem body_cons_of_argument (ht : t.kind = .argument) :
    body (depth + 1) (t :: ts) = t :: body (depth + 1) ts := by
  rw [body_cons fun h => absurd h depth.succ_ne_zero,
    Token.depthBehind_of_flat (by rw [ht]; exact ⟨rfl, rfl⟩)]

theorem body_cons_of_closes (ht : t.kind.closes) :
    body (depth + 1) (t :: ts) = t :: body depth ts := by
  rw [body_cons fun h => absurd h depth.succ_ne_zero, Token.depthBehind_of_closes ht]

theorem Span.ne_of_admits {span : Span} {k k' : Token.Kind} (h : span.admits k)
    (h' : span.admits k' = false) : k ≠ k' := by
  rintro rfl
  rw [h'] at h
  exact Bool.false_ne_true h

/-- Tokens outside of enclosures change nothing. -/
theorem body_append_of_plain (h : ∀ t ∈ ts, Span.expression.admits t.kind) :
    body depth (ts ++ us) = ts ++ body depth us := by
  induction ts with
  | nil => rfl
  | cons t ts ih =>
    obtain ⟨ht, hts⟩ := List.forall_mem_cons.1 h
    have hflat := Span.flat_of_admits ht
    rw [List.cons_append, body_cons fun _ => ⟨hflat.2, Span.ne_of_admits ht rfl⟩,
      Token.depthBehind_of_flat hflat, ih hts, List.cons_append]

theorem Body.all_append_of_plain (h : ∀ t ∈ ts, Span.expression.admits t.kind) :
    all depth (ts ++ us) = all depth us := by
  induction ts with
  | nil => rfl
  | cons t ts ih =>
    obtain ⟨ht, hts⟩ := List.forall_mem_cons.1 h
    have hflat := Span.flat_of_admits ht
    rw [List.cons_append, all_cons_of_ne (Span.ne_of_admits ht rfl) (Span.ne_of_admits ht rfl),
      Token.depthBehind_of_flat hflat, ih hts]

end Parser

/-! ### The tokens of a move -/

namespace Lexer

open XPath.Parser (Body body body_cons_of_opens body_cons_of_argument body_cons_of_closes)

variable {limit : Nat} {s next : State} {tokens : List Token}

/-- The tokens of a move continue the body around them, unless they end it. -/
theorem Turn.body_append {es outer : List Enclosure} (h : Turn limit s tokens next)
    (hs : s.enclosures = es ++ outer)
    (hclosing : ∀ t, s.mode = .operator → Closing s t next → es ≠ []) :
    ∃ es', next.enclosures = es' ++ outer ∧
      ∀ ts, body es.length (tokens ++ ts) = tokens ++ body es'.length ts := by
  cases h with
  | plain kinds leads same =>
    exact ⟨es, same.trans hs, fun ts => Parser.body_append_of_plain kinds⟩
  | emptyCall kind kind' leads same =>
    refine ⟨es, same.trans hs, fun ts => ?_⟩
    rw [List.cons_append, body_cons_of_opens (by rw [kind]; rfl), List.cons_append,
      body_cons_of_closes (by rw [kind']; rfl)]
    rfl
  | @call _ _ _ e kind kind' depth more begins =>
    refine ⟨e :: es, by rw [more, hs, List.cons_append], fun ts => ?_⟩
    rw [List.cons_append, body_cons_of_opens (by rw [kind]; rfl), List.cons_append,
      body_cons_of_argument kind', List.length_cons]
    rfl
  | @predicate _ _ e kind depth more begins =>
    refine ⟨e :: es, by rw [more, hs, List.cons_append], fun ts => ?_⟩
    rw [List.cons_append, body_cons_of_opens (by rw [kind]; rfl), List.length_cons]
    rfl
  -- the token ends the innermost level, which is one of `es`
  | @closing t _ mode closing =>
    obtain ⟨e', es', rfl⟩ := List.exists_cons_of_ne_nil (hclosing t mode closing)
    cases closing with
    | argument kind closes same begins =>
      refine ⟨e' :: es', same.trans hs, fun ts => ?_⟩
      rw [List.cons_append, List.length_cons, body_cons_of_argument kind]
      rfl
    | ends kind closes leads less =>
      rw [less] at hs
      refine ⟨es', (List.cons.inj hs).2, fun ts => ?_⟩
      rw [List.cons_append, List.length_cons, body_cons_of_closes kind]
      rfl

/-- A move begins at most one argument or predicate, and it is read from the next state on. -/
theorem Turn.mem_all {ts : List Token} {b : Body} (h : Turn limit s tokens next)
    (hb : b ∈ Body.all s.enclosures.length (tokens ++ ts)) :
    b ∈ Body.all next.enclosures.length ts ∨
      ∃ t, Begins s t next ∧ b = .behind next.enclosures.length t ts := by
  -- where the move begins a body, it is the first of those that are left
  have hbegins {t : Token} (begins : Begins s t next)
      (hb : b ∈ Body.behind next.enclosures.length t ts :: Body.all next.enclosures.length ts) :
      b ∈ Body.all next.enclosures.length ts ∨
        ∃ t, Begins s t next ∧ b = .behind next.enclosures.length t ts :=
    (List.mem_cons.1 hb).symm.imp_right fun hb => ⟨t, begins, hb⟩
  cases h with
  | plain kinds leads same =>
    rw [Body.all_append_of_plain kinds] at hb
    exact .inl (by rwa [same])
  | emptyCall kind kind' leads same =>
    rw [List.cons_append, Body.all_cons_of_call kind, List.cons_append,
      Body.all_cons_of_closes (by rw [kind']; rfl)] at hb
    exact .inl (by rwa [same])
  | call kind kind' depth more begins =>
    rw [List.cons_append, Body.all_cons_of_call kind, List.cons_append,
      Body.all_cons_of_argument kind', ← List.length_cons, ← more] at hb
    exact hbegins begins hb
  | predicate kind depth more begins =>
    rw [List.cons_append, Body.all_cons_of_predicateStart kind, ← List.length_cons, ← more] at hb
    exact hbegins begins hb
  | closing mode closing =>
    cases closing with
    | argument kind closes same begins =>
      rw [List.cons_append, Body.all_cons_of_argument kind, ← same] at hb
      exact hbegins begins hb
    | ends kind closes leads less =>
      rw [List.cons_append, less, List.length_cons, Body.all_cons_of_closes kind] at hb
      exact .inl hb

/-! ### Runs -/

/-- Where an enclosure ends, the inner text alone is read. -/
theorem Within.stop {k : Nat} {outer : List Enclosure} {s s' : State}
    (hw : Within k s'.cursor.skipBlank.rest outer s s') (mode : s'.mode = .operator)
    (hes : s'.enclosures = outer) : move limit s = .stop := by
  have hinner := hw.enclosures
  rw [hes] at hinner
  have hnil : s.enclosures = [] := List.map_eq_nil_iff.1 (List.self_eq_append_left.1 hinner)
  have hrest : s'.cursor.skipBlank.rest = s.cursor.skipBlank.rest ++ s'.cursor.skipBlank.rest :=
    congrArg Cursor.rest hw.cursor
  unfold move
  rw [← hw.mode, mode]
  show operatorMove s = .stop
  rw [operatorMove_nil (List.self_eq_append_left.1 hrest)]
  exact closingMove_eq_stop.2 hnil

/-- If an enclosure does not end, the inner text alone goes on with no closing character. -/
theorem Within.inner {k : Nat} {back : List Char} {es outer : List Enclosure} {s s' : State}
    (hw : Within k back outer s s') (hes : s'.enclosures = es ++ outer)
    (hends : ¬(s'.mode = .operator ∧ es = [] ∧ startsWith isCloser s'.cursor.skipBlank.rest)) :
    s.mode = .operator → s.enclosures = [] →
      startsWith isCloser s.cursor.skipBlank.rest = false := by
  intro mode hs
  have hnil : es = [] := by
    have hinner := hw.enclosures
    rw [hes, hs] at hinner
    exact List.append_cancel_right hinner
  have hfirst : startsWith isCloser s'.cursor.skipBlank.rest = false := by
    by_cases hf : startsWith isCloser s'.cursor.skipBlank.rest
    · exact absurd ⟨hw.mode.trans mode, hnil, hf⟩ hends
    · simpa using hf
  rw [hw.cursor, Cursor.rest_within] at hfirst
  cases hc : s.cursor.skipBlank.rest with
  | nil => rfl
  | cons d rest =>
    rw [hc] at hfirst
    exact hfirst

/-- What is read from a state inside the enclosures `outer`, up to where the innermost of them or
its argument ends, is read from the same state on the inner text alone. -/
theorem inside_of_run :
    ∀ s' ts, run limit s' = .ok ts → ∀ es outer, s'.enclosures = es ++ outer → outer ≠ [] →
      ∃ q u after, s'.cursor.Leads q ∧ ClosesAt u q ∧ ts = body es.length ts ++ u :: after ∧
        ∀ k s, Within k q.rest outer s s' → ∃ us, run (limit - outer.length) s = .ok us ∧
          body es.length ts = us.map (Token.shift k) := by
  refine run_induction (fun s' hmove => ?_) (fun s' tokens next rest hmove hrun ih => ?_)
  · intro es outer hes houter
    have hnil : s'.enclosures = [] := List.map_eq_nil_iff.1 (mode_of_stop hmove).2
    rw [hnil] at hes
    exact absurd (List.append_eq_nil_iff.1 hes.symm).2 houter
  · intro es outer hes houter
    -- the enclosures `es` were opened inside; without them an ending move ends what is read
    by_cases hends : s'.mode = .operator ∧ es = [] ∧ startsWith isCloser s'.cursor.skipBlank.rest
    · obtain ⟨mode, rfl, hfirst⟩ := hends
      have hes : s'.enclosures = outer := hes
      have hclosing : closingMove s' s'.cursor.skipBlank = .emit tokens next := by
        rw [← operatorMove_closer hfirst (hes ▸ houter), ← hmove, move, mode]
      obtain ⟨u, rfl, hu⟩ := closing_of_closingMove hclosing
      have hbody : body 0 ([u] ++ rest) = [] := Parser.body_eq_nil rfl hu.closes.kind rest
      refine ⟨s'.cursor.skipBlank, u, rest, (Cursor.Leads.refl _).skipBlank, hu.closes, ?_, ?_⟩
      · rw [List.length_nil, hbody]
        rfl
      · intro k s hw
        exact ⟨[], run_eq_ok.2 (.inl ⟨hw.stop mode hes, rfl⟩), hbody⟩
    · have turn := turn_of_move hmove
      have hstays : ∀ t, s'.mode = .operator → Closing s' t next → es ≠ [] :=
        fun t mode hclosing hnil => hends ⟨mode, hnil, hclosing.closes.first⟩
      obtain ⟨es', hnext, hbody⟩ := turn.body_append hes hstays
      obtain ⟨q, u, after, hq, hu, hrest, halone⟩ := ih es' outer hnext houter
      refine ⟨q, u, after, turn.leads.trans hq, hu, ?_, ?_⟩
      · rw [hbody, List.append_assoc, ← hrest]
      · intro k s hw
        -- the move reads nothing behind the end, for `q` still lies ahead of it
        have hparallel : Parallel k q.rest outer (move (limit - outer.length) s) (move limit s') :=
          parallel_move hu.first hw (hw.inner hes hends)
        rw [hmove] at hparallel
        generalize halone' : move (limit - outer.length) s = alone at hparallel
        cases hparallel with
        | @emit tokens t _ hnext =>
          obtain ⟨us, hus, hshift⟩ := halone k t hnext
          refine ⟨tokens ++ us, run_eq_ok.2 (.inr ⟨tokens, t, us, halone', hus, rfl⟩), ?_⟩
          rw [hbody, hshift, List.map_append]
        | past shorter => exact absurd hq.length_le (Nat.not_le_of_lt shorter)

/-! ### The text of an argument or a predicate -/

/-- What begins with a token is a text of its own. -/
theorem Begins.alone {limit : Nat} {text : String} {s next : State} {t : Token} {ts : List Token}
    (h : Begins s t next) (hstart : (Cursor.start text).Leads s.cursor)
    (hlimit : next.enclosures.length ≤ limit) (hrun : run limit next = .ok ts) :
    (Body.behind next.enclosures.length t ts).Alone limit text := by
  obtain ⟨p, hp, hopens, hnext⟩ := h.place
  obtain ⟨q, u, after, hq, hu, hts, halone⟩ :=
    inside_of_run next ts hrun [] next.enclosures rfl h.enclosed
  have hcursor : next.cursor.skipBlank = (p.advance 1).skipBlank := by
    rcases hnext with hnext | hnext
    · rw [hnext]
    · rw [hnext, Cursor.skipBlank_skipBlank]
  have hleads : (p.advance 1).Leads q := by
    rcases hnext with hnext | hnext
    · rwa [hnext] at hq
    · rw [hnext] at hq
      exact (Cursor.Leads.refl _).skipBlank.trans hq
  obtain ⟨w, hrest, hoffset⟩ := hleads
  -- behind the opening character the text `w` stands in front of the end
  have hplace : p.advance 1
      = (Cursor.start (String.ofList w)).within (p.advance 1).offset q.rest := by
    rw [Cursor.within, Cursor.start, String.toList_ofList, ← hrest, Nat.add_zero]
  have hwithin :
      Within (p.advance 1).offset q.rest next.enclosures (start (String.ofList w)) next := by
    refine ⟨h.mode, ?_, rfl⟩
    rw [hcursor, ← skipBlank_within hu.first]
    exact congrArg Cursor.skipBlank hplace
  obtain ⟨us, hus, hshift⟩ := halone _ _ hwithin
  refine ⟨⟨List.length_pos_iff.2 h.enclosed, hlimit⟩, String.ofList w, (p.advance 1).offset, us,
    ⟨p, q, u, hstart.trans hp, hopens, rfl, ?_, ?_, hu, ?_⟩, hus, hshift⟩
  · rwa [String.toList_ofList]
  · rwa [String.toList_ofList]
  · have hdrop : ∀ xs, ts = xs ++ u :: after → (ts.drop xs.length).head? = some u := by
      rintro xs rfl
      rw [List.drop_left, List.head?_cons]
    exact hdrop _ hts

/-- Whatever is read from a state on, the arguments and predicates in it are texts of their own. -/
theorem bodies_of_run {limit : Nat} {text : String} :
    ∀ s ts, run limit s = .ok ts → (Cursor.start text).Leads s.cursor →
      s.enclosures.length ≤ limit → ∀ b ∈ Body.all s.enclosures.length ts, b.Alone limit text := by
  refine run_induction (fun s hmove => ?_) (fun s tokens next rest hmove hrun ih => ?_)
  · intro _ _ b hb
    simp [Body.all] at hb
  · intro hstart hlimit b hb
    have turn := turn_of_move hmove
    rcases turn.mem_all hb with hb | ⟨t, begins, rfl⟩
    · exact ih (hstart.trans turn.leads) (turn.depth_le hlimit) b hb
    · exact begins.alone hstart (turn.depth_le hlimit) hrun

end Lexer

/-! ### Whole texts -/

theorem sameTokens_shift (k : Nat) (ts : List Token) : SameTokens (ts.map (Token.shift k)) ts :=
  List.map_map

/-- Every argument and every predicate of a text that can be broken into tokens has the tokens of
its own text, at shifted places.  If the text stands for an expression, the expressions inside it
are those that the texts of its arguments and predicates stand for. -/
theorem tokenize_bodies {limit : Nat} {s : String} {ts : List Token}
    (h : tokenize limit s = .ok ts) :
    (∀ b ∈ Parser.Body.all 0 ts, b.Alone limit s) ∧
    ∀ functions e, parse functions limit s = .ok e →
      List.Forall₂
        (fun b f => ∀ source origin, b.Written s source origin →
          ∀ m, limit - b.level ≤ m → parse functions m source = .ok f)
        (Parser.Body.all 0 ts) e.nested := by
  have halone : ∀ b ∈ Parser.Body.all 0 ts, b.Alone limit s :=
    Lexer.bodies_of_run (Lexer.start s) ts h (.refl _) (Nat.zero_le limit)
  refine ⟨halone, fun functions e he => ?_⟩
  obtain ⟨ts', hts', hderives⟩ := parse_eq_ok.1 he
  have hts : ts' = ts := Except.ok.inj (hts'.symm.trans h)
  subst hts
  obtain ⟨bs, hbs, hnested⟩ := hderives.encloses
  rw [Parser.bodies, List.append_nil, ← Parser.Body.map_inside_all ts' 0] at hbs
  rw [← hbs, List.forall₂_map_left_iff] at hnested
  refine ((List.forall₂_and_left _ _).2 ⟨halone, hnested⟩).imp ?_
  rintro b f ⟨⟨-, source, origin, us, hwritten, hus, hinside⟩, hread⟩
  intro source' origin' hwritten' m hm
  rw [hwritten'.unique hwritten |>.1]
  rw [hinside] at hread
  have hparse := parseTokens_of_same hread (sameTokens_shift origin us)
  have hus : tokenize m source = .ok us := Lexer.run_of_le hm (Lexer.start source) us hus
  exact parse_eq_ok.2 ⟨us, hus, parseTokens_eq_ok.1 hparse⟩

/-- A predicate, and a call in the next one with a predicate in its first argument. -/
theorem tokenize_bodies_sample :
    ∃ s ts, ∃ e : Expr, s = "a[b = 'x']/c[contains( d[ e ], f)]" ∧ tokenize 3 s = .ok ts ∧
      parse .standard 3 s = .ok e ∧
      (Parser.Body.all 0 ts).map Parser.Body.level = [1, 1, 2, 3, 2] ∧
      (∀ b ∈ Parser.Body.all 0 ts, b.Alone 3 s) ∧
      List.Forall₂
        (fun b f => ∀ source origin, b.Written s source origin →
          ∀ m, 3 - b.level ≤ m → parse .standard m source = .ok f)
        (Parser.Body.all 0 ts) e.nested := by
  have htokens : (tokenize 3 "a[b = 'x']/c[contains( d[ e ], f)]").map
      (fun ts => (Parser.Body.all 0 ts).map Parser.Body.level) = .ok [1, 1, 2, 3, 2] := by
    decide +kernel
  have hparsed : (parse .standard 3 "a[b = 'x']/c[contains( d[ e ], f)]").isOk := by
    decide +kernel
  obtain ⟨ts, hts, hlevels⟩ := map_eq_ok.1 htokens
  obtain ⟨e, he⟩ := exists_eq_ok_of_isOk hparsed
  obtain ⟨halone, hnested⟩ := tokenize_bodies hts
  exact ⟨_, ts, e, rfl, hts, he, hlevels, halone, hnested .standard e he⟩

end XPath
