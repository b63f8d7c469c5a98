import XPath.Proofs.Nested.Turn
import XPath.Proofs.Token.Limit

/-!
# How many enclosures are open at once

The limit bounds exactly the number of predicates and calls with arguments that are open at once;
for everything else it does not matter.

* `Token.nesting`: the greatest number of enclosures that are open at once among tokens;
* `Turn.nesting_le_iff`: what a move adds to it;
* `run_of_nesting`: one run under two limits;
* `tokenize_nesting`: one text under two limits.
-/

namespace XPath

namespace Token

/-- Whether a token is a call in front of the parenthesis that ends it. -/
def isEmptyCall (t : Token) (rest : List Token) : Bool :=
  t.kind == .call && rest.head?.any fun u => u.kind == .callEnd

/-- The greatest number of predicates and calls with arguments that are open at once behind one of
the tokens, if `depth` of them are open in front.  A call without arguments does not count. -/
def nesting : Nat → List Token → Nat
  | _, [] => 0
  | depth, t :: ts =>
    let inner := t.depthBehind depth
    if t.isEmptyCall ts then nesting inner ts else max inner (nesting inner ts)

variable {t u : Token} {ts us : List Token} {depth d : Nat}

theorem nesting_le_cons (h : t.isEmptyCall ts = false) :
    nesting depth (t :: ts) ≤ d ↔
      t.depthBehind depth ≤ d ∧ nesting (t.depthBehind depth) ts ≤ d := by
  rw [nesting, h, if_neg Bool.false_ne_true, Nat.max_le]

theorem isEmptyCall_of_ne (h : t.kind ≠ .call) : t.isEmptyCall ts = false := by
  simp [isEmptyCall, h]

/-- Tokens outside of enclosures add nothing. -/
theorem nesting_le_append (hplain : ∀ t ∈ ts, Parser.Span.expression.admits t.kind)
    (hd : depth ≤ d) : nesting depth (ts ++ us) ≤ d ↔ nesting depth us ≤ d := by
  induction ts with
  | nil => rfl
  | cons t ts ih =>
    obtain ⟨ht, hts⟩ := List.forall_mem_cons.1 hplain
    have hcall : t.kind ≠ .call := by
      intro hk
      rw [hk] at ht
      exact Bool.false_ne_true ht
    rw [List.cons_append, nesting_le_cons (isEmptyCall_of_ne hcall),
      depthBehind_of_flat (Parser.Span.flat_of_admits ht), ih hts, and_iff_right hd]

/-- A call without arguments adds nothing. -/
theorem nesting_le_emptyCall (ht : t.kind = .call) (hu : u.kind = .callEnd) (hd : depth ≤ d) :
    nesting depth (t :: u :: ts) ≤ d ↔ nesting depth ts ≤ d := by
  have hempty : t.isEmptyCall (u :: ts) := by simp [isEmptyCall, ht, hu]
  rw [nesting, hempty, if_pos rfl, depthBehind_of_opens (by rw [ht]; rfl),
    nesting_le_cons (isEmptyCall_of_ne (by simp [hu])), depthBehind_of_closes (by rw [hu]; rfl),
    and_iff_right hd]

end Token

namespace Lexer

open Token (nesting nesting_le_cons isEmptyCall_of_ne)

variable {limit d : Nat} {s next : State} {tokens : List Token}

/-- A move keeps the number of open enclosures within `d` if it does so behind its own tokens. -/
theorem Turn.nesting_le_iff (h : Turn limit s tokens next) (hs : s.enclosures.length ≤ d)
    (rest : List Token) :
    nesting s.enclosures.length (tokens ++ rest) ≤ d ↔
      next.enclosures.length ≤ d ∧ nesting next.enclosures.length rest ≤ d := by
  cases h with
  | plain kinds leads same => rw [Token.nesting_le_append kinds hs, same, and_iff_right hs]
  | emptyCall kind kind' leads same =>
    rw [List.cons_append, List.singleton_append, Token.nesting_le_emptyCall kind kind' hs, same,
      and_iff_right hs]
  | @call t u _ e kind kind' depth more begins =>
    -- the argument behind it shows that the call is not empty
    have hcall : t.isEmptyCall (u :: rest) = false := by simp [Token.isEmptyCall, kind']
    rw [List.cons_append, List.singleton_append, nesting_le_cons hcall,
      Token.depthBehind_of_opens (by rw [kind]; rfl),
      nesting_le_cons (isEmptyCall_of_ne (by simp [kind'])),
      Token.depthBehind_of_flat (by rw [kind']; exact ⟨rfl, rfl⟩), more, List.length_cons,
      ← and_assoc, and_self]
  | @predicate t _ e kind depth more begins =>
    rw [List.singleton_append, nesting_le_cons (isEmptyCall_of_ne (by simp [kind])),
      Token.depthBehind_of_opens (by rw [kind]; rfl), more, List.length_cons]
  | @closing t _ mode closing =>
    cases closing with
    | argument kind closes same begins =>
      rw [List.singleton_append, nesting_le_cons (isEmptyCall_of_ne (by simp [kind])),
        Token.depthBehind_of_flat (by rw [kind]; exact ⟨rfl, rfl⟩), same]
    | ends kind closes leads less =>
      have hcall : t.kind ≠ .call := by
        intro hk
        rw [hk] at kind
        exact Bool.false_ne_true kind
      rw [List.singleton_append, less, List.length_cons, nesting_le_cons (isEmptyCall_of_ne hcall),
        Token.depthBehind_of_closes kind]

/-- Under a limit that is not exceeded yet, the same is read if the tokens do not exceed it, and
nothing else can happen but that they do. -/
theorem run_of_nesting :
    ∀ s ts, run limit s = .ok ts → ∀ limit', s.enclosures.length ≤ limit' → run limit' s =
      if nesting s.enclosures.length ts ≤ limit' then .ok ts
      else .error (.nestingTooDeep limit') := by
  refine run_induction (fun s hmove => ?_) (fun s tokens next rest hmove _ ih => ?_)
  · intro limit' _
    rw [nesting, if_pos (Nat.zero_le limit')]
    exact run_eq_ok.2 (.inl ⟨move_eq_stop limit limit' s hmove, rfl⟩)
  · intro limit' hs
    have turn := turn_of_move hmove
    simp only [turn.nesting_le_iff hs rest]
    have hlimited := limited_move limit limit' s
    rw [hmove] at hlimited
    generalize hmove' : move limit' s = m at hlimited
    cases hlimited with
    | same =>
      have hnext : next.enclosures.length ≤ limit' := (turn_of_move hmove').depth_le hs
      rw [run, hmove']
      simp only [ih limit' hnext, hnext, true_and]
      split <;> rfl
    | cut depth full more =>
      have hdeeper : ¬next.enclosures.length ≤ limit' := by omega
      rw [run, hmove', if_neg fun h => hdeeper h.1]

end Lexer

/-- The limit is exact: a text that is read under some limit has no more enclosures open at once
than that limit allows, and under any limit it is read as the same tokens if the limit allows as
many, and refused for its nesting alone if not. -/
theorem tokenize_nesting {limit : Nat} {s : String} {ts : List Token}
    (h : tokenize limit s = .ok ts) :
    Token.nesting 0 ts ≤ limit ∧ ∀ limit', tokenize limit' s =
      if Token.nesting 0 ts ≤ limit' then .ok ts else .error (.nestingTooDeep limit') := by
  have hrun : ∀ limit', tokenize limit' s =
      if Token.nesting 0 ts ≤ limit' then .ok ts else .error (.nestingTooDeep limit') :=
    fun limit' => Lexer.run_of_nesting (Lexer.start s) ts h limit' (Nat.zero_le limit')
  refine ⟨?_, hrun⟩
  refine Nat.le_of_not_lt fun hdeep => ?_
  rw [hrun limit, if_neg (Nat.not_le_of_lt hdeep)] at h
  cases h

/-- Four enclosures are open at once, two of them calls; a call without arguments is not counted. -/
theorem tokenize_nesting_four :
    ∃ s ts, s = "a[f(b, g(c[h()])) = 'x']/d[e]" ∧ tokenize 32 s = .ok ts ∧
      Token.nesting 0 ts = 4 ∧ tokenize 4 s = .ok ts ∧
      tokenize 3 s = .error (.nestingTooDeep 3) := by
  have htokens : (tokenize 32 "a[f(b, g(c[h()])) = 'x']/d[e]").map (Token.nesting 0) = .ok 4 := by
    decide +kernel
  obtain ⟨ts, hts, hnesting⟩ := map_eq_ok.1 htokens
  obtain ⟨-, hlimit⟩ := tokenize_nesting hts
  have hfour := hlimit 4
  have hthree := hlimit 3
  rw [hnesting, if_pos (Nat.le_refl 4)] at hfour
  rw [hnesting, if_neg (by decide)] at hthree
  exact ⟨_, ts, rfl, hts, hnesting, hfour, hthree⟩

end XPath
