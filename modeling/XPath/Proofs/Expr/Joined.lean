import XPath.Proofs.Expr.Balanced
import XPath.Proofs.Expr.Chain
import XPath.Proofs.Expr.Precedence

/-!
# Expressions joined by an operator

A chain of operands is split at the last of its loosest operators: what stands on either side is
grouped as if it stood alone.  So an operator between the tokens of two expressions joins these, if
neither binds more loosely, and whatever is read with an operator at the top is joined in this way.

* `exists_loosest`, `reduceLevels_cut`, `assemble_cut`: where a chain is split;
* `level_assemble`: how tightly a chain binds;
* `Parser.Derives.extend`: what is read up to the end is read in front of an operator;
* `Parser.parseTokens_join`, `Parser.parseTokens_split`: two expressions;
* `Parser.Joined`: a chain of operands with the same connective, and what it is read as.
-/

namespace XPath

/-! ### Splitting a chain -/

theorem reduceLevel_append (level : Nat) {op : Operator} {f : Expr}
    {ops₁ ops₂ : List (Operator × Expr)} (hop : op.level ≠ level) : ∀ e,
      reduceLevel level e (ops₁ ++ (op, f) :: ops₂)
        = ((reduceLevel level e ops₁).1,
          (reduceLevel level e ops₁).2 ++ (op, (reduceLevel level f ops₂).1)
            :: (reduceLevel level f ops₂).2) := by
  induction ops₁ with
  | nil =>
    intro e
    simp only [List.nil_append, reduceLevel, if_neg hop]
  | cons o ops₁ ih =>
    intro e
    rw [List.cons_append, reduceLevel, reduceLevel]
    split
    · exact ih _
    · rw [ih o.2]
      rfl

/-- Where all operators are of one level, the last one joins the rest to its operand. -/
theorem reduceLevel_concat {level : Nat} {op : Operator} {f : Expr}
    {ops : List (Operator × Expr)} (hop : op.level = level) (hops : ∀ o ∈ ops, o.1.level = level) :
    ∀ e, reduceLevel level e (ops ++ [(op, f)]) = (op.apply (reduceLevel level e ops).1 f, []) ∧
      (reduceLevel level e ops).2 = [] := by
  induction ops with
  | nil =>
    intro e
    simp only [List.nil_append, reduceLevel, if_pos hop, and_self]
  | cons o ops ih =>
    intro e
    obtain ⟨ho, hops⟩ := List.forall_mem_cons.1 hops
    rw [List.cons_append, reduceLevel, reduceLevel, if_pos ho, if_pos ho]
    exact ih hops _

theorem reduceLevels_nil (levels : Nat) (e : Expr) : reduceLevels levels (e, []) = (e, []) := by
  induction levels with
  | zero => rfl
  | succ level ih => exact ih

/-- A chain is split at the last of its loosest operators. -/
theorem reduceLevels_cut (levels : Nat) {op : Operator} (hlevel : op.level < levels) :
    ∀ (e f : Expr) (ops₁ ops₂ : List (Operator × Expr)),
      (∀ o ∈ ops₁, op.level ≤ o.1.level ∧ o.1.level < levels) →
      (∀ o ∈ ops₂, op.level < o.1.level ∧ o.1.level < levels) →
      reduceLevels levels (e, ops₁ ++ (op, f) :: ops₂)
        = (op.apply (reduceLevels levels (e, ops₁)).1 (reduceLevels levels (f, ops₂)).1, []) := by
  induction levels with
  | zero => exact absurd hlevel (Nat.not_lt_zero _)
  | succ level ih =>
    intro e f ops₁ ops₂ h₁ h₂
    simp only [reduceLevels]
    rcases Nat.lt_or_eq_of_le (Nat.le_of_lt_succ hlevel) with hlt | heq
    · -- the operators of a tighter level are grouped on either side
      have hrest : ∀ (g : Expr) {ops : List (Operator × Expr)}, (∀ o ∈ ops, o.1.level < level + 1) →
          ∀ p ∈ (reduceLevel level g ops).2, p.1.level < level := by
        intro g ops hops p hp
        obtain ⟨hne, q, hq, hqp⟩ := level_of_mem_reduceLevel g p hp
        have hlt := hqp ▸ hops q hq
        omega
      rw [reduceLevel_append level (Nat.ne_of_lt hlt)]
      refine ih hlt _ _ _ _ (fun p hp => ⟨?_, hrest e (fun o ho => (h₁ o ho).2) p hp⟩)
        fun p hp => ⟨?_, hrest f (fun o ho => (h₂ o ho).2) p hp⟩
      · obtain ⟨-, q, hq, hqp⟩ := level_of_mem_reduceLevel e p hp
        exact hqp ▸ (h₁ q hq).1
      · obtain ⟨-, q, hq, hqp⟩ := level_of_mem_reduceLevel f p hp
        exact hqp ▸ (h₂ q hq).1
    · -- all operators left are of the level of the operator, and it is the last one
      have hnone : ops₂ = [] := by
        refine List.eq_nil_iff_forall_not_mem.2 fun o ho => ?_
        have := h₂ o ho
        omega
      have hsame : ∀ o ∈ ops₁, o.1.level = level := fun o ho => by
        have := h₁ o ho
        omega
      subst hnone
      obtain ⟨hconcat, hfirst⟩ := reduceLevel_concat (f := f) heq hsame e
      have hpair : reduceLevel level e ops₁ = ((reduceLevel level e ops₁).1, []) :=
        Prod.ext rfl hfirst
      rw [hconcat, hpair, reduceLevel, reduceLevels_nil, reduceLevels_nil, reduceLevels_nil]

theorem assemble_cut {op : Operator} (e f : Expr) {ops₁ ops₂ : List (Operator × Expr)}
    (h₁ : ∀ o ∈ ops₁, op.level ≤ o.1.level) (h₂ : ∀ o ∈ ops₂, op.level < o.1.level) :
    assemble e (ops₁ ++ (op, f) :: ops₂)
      = op.apply (assemble e ops₁) (assemble f ops₂) := by
  have hcut := reduceLevels_cut 4 op.level_lt e f ops₁ ops₂ (fun o ho => ⟨h₁ o ho, o.1.level_lt⟩)
    fun o ho => ⟨h₂ o ho, o.1.level_lt⟩
  exact congrArg Prod.fst hcut

/-- Every chain has a last one among its loosest operators. -/
theorem exists_loosest {ops : List (Operator × Expr)} (h : ops ≠ []) :
    ∃ ops₁ op f ops₂, ops = ops₁ ++ (op, f) :: ops₂ ∧ (∀ o ∈ ops₁, op.level ≤ o.1.level) ∧
      ∀ o ∈ ops₂, op.level < o.1.level := by
  induction ops with
  | nil => exact absurd rfl h
  | cons p ops ih =>
    by_cases hops : ops = []
    · exact ⟨[], p.1, p.2, ops, rfl, List.forall_mem_nil _, by simp [hops]⟩
    · obtain ⟨ops₁, op, f, ops₂, rfl, h₁, h₂⟩ := ih hops
      rcases Nat.lt_or_ge p.1.level op.level with hlt | hle
      · refine ⟨[], p.1, p.2, _, rfl, List.forall_mem_nil _, ?_⟩
        refine List.forall_mem_append.2 ⟨fun o ho => Nat.lt_of_lt_of_le hlt (h₁ o ho), ?_⟩
        exact List.forall_mem_cons.2 ⟨hlt, fun o ho => Nat.lt_trans hlt (h₂ o ho)⟩
      · exact ⟨p :: ops₁, op, f, ops₂, rfl, List.forall_mem_cons.2 ⟨hle, h₁⟩, h₂⟩

/-- A chain binds as its loosest operator does, and without any operator as its operand does. -/
theorem level_assemble (e : Expr) (ops : List (Operator × Expr)) :
    (ops = [] ∧ assemble e ops = e) ∨
      ∃ o ∈ ops, (assemble e ops).level = o.1.level ∧
        ∀ p ∈ ops, (assemble e ops).level ≤ p.1.level := by
  by_cases hops : ops = []
  · subst hops
    exact .inl ⟨rfl, congrArg Prod.fst (reduceLevels_nil 4 e)⟩
  · obtain ⟨ops₁, op, f, ops₂, rfl, h₁, h₂⟩ := exists_loosest hops
    refine .inr ⟨(op, f), by simp, ?_⟩
    rw [assemble_cut e f h₁ h₂, Expr.level_apply]
    refine ⟨rfl, List.forall_mem_append.2 ⟨h₁, List.forall_mem_cons.2 ⟨Nat.le_refl _, ?_⟩⟩⟩
    exact fun o ho => Nat.le_of_lt (h₂ o ho)

theorem level_assemble_le {e : Expr} {ops : List (Operator × Expr)} {o : Operator × Expr}
    (ho : o ∈ ops) : (assemble e ops).level ≤ o.1.level := by
  rcases level_assemble e ops with ⟨rfl, -⟩ | ⟨-, -, -, hle⟩
  · exact absurd ho List.not_mem_nil
  · exact hle o ho

theorem le_level_assemble {e : Expr} {ops : List (Operator × Expr)} {level : Nat}
    (he : level ≤ e.level) (hops : ∀ o ∈ ops, level ≤ o.1.level) :
    level ≤ (assemble e ops).level := by
  rcases level_assemble e ops with ⟨-, heq⟩ | ⟨o, ho, heq, -⟩
  · rwa [heq]
  · rw [heq]
    exact hops o ho

theorem Operator.apply_inj {op op' : Operator} {l r l' r' : Expr}
    (h : op.apply l r = op'.apply l' r') : op = op' ∧ l = l' ∧ r = r' := by
  cases op <;> cases op' <;> cases h <;> exact ⟨rfl, rfl, rfl⟩

/-- No two connectives bind equally tightly, and no comparison binds as a connective does. -/
theorem exists_connect_of_level {op : Connective} {e : Expr}
    (h : (Operator.connective op).level = e.level) : ∃ l r, e = .connect op l r := by
  cases e with
  | connect op' l r =>
    cases op <;> cases op' <;> first | exact ⟨l, r, rfl⟩ | cases h
  | compare op' l r => cases op <;> cases op' <;> cases h
  | _ => exact absurd h (Nat.ne_of_lt (Operator.connective op).level_lt)

/-! ### Reading on -/

namespace Parser

variable {functions : Registry} {t : Token} {ts us zs : List Token}

theorem NotNext.extend {p : Token → Prop} (h : NotNext p ts) (ht : ¬p t) :
    NotNext p (ts ++ t :: zs) := by
  cases ts with
  | nil =>
    intro u hu
    cases hu
    exact ht
  | cons u ts => exact h

theorem WrittenAxis.extend {explicit : Option Axis} (h : WrittenAxis explicit ts us) :
    WrittenAxis explicit (ts ++ zs) (us ++ zs) := by
  cases h with
  | axis kind found => exact .axis kind found
  | attributeSign kind => exact .attributeSign kind
  | nothing => exact .nothing

theorem WrittenTest.extend (ht : t.kind = .operator) {explicit : Option Axis} {a : Axis}
    {test : NodeTest} (h : WrittenTest explicit a test ts us) :
    WrittenTest explicit a test (ts ++ t :: zs) (us ++ t :: zs) := by
  cases h with
  | name kind head => exact .name kind head
  | nameSpace kind kind' => exact .nameSpace kind kind'
  | nodeType kind plain => exact .nodeType kind plain
  | instruction kind text next => exact .instruction kind text (next.extend (by simp [ht]))
  | target kind text kind' => exact .target kind text kind'

theorem StepHead.extend (ht : t.kind = .operator) {a : Axis} {test : NodeTest}
    (h : StepHead a test ts us) : StepHead a test (ts ++ t :: zs) (us ++ t :: zs) := by
  obtain ⟨explicit, mid, haxis, htest⟩ := h
  exact ⟨explicit, mid ++ t :: zs, haxis.extend, htest.extend ht⟩

/-- Whether an operator may go on with what is read. -/
def Phrase.GoesOn : Phrase → Prop
  | .expression _ | .chain _ => True
  | _ => False

/-- What is read is read in the same way in front of an operator, unless it ends there and the
operator goes on with it. -/
theorem Derives.extend (ht : t.kind = .operator) {p : Phrase} (h : Derives functions p ts us) :
    (p.GoesOn → us ≠ []) → Derives functions p (ts ++ t :: zs) (us ++ t :: zs) := by
  induction h with
  | expression left more ihLeft ihMore =>
    exact fun hp => .expression (ihLeft nofun) (ihMore hp)
  | @noOperator ts next =>
    intro hp
    cases ts with
    | nil => exact absurd rfl (hp trivial)
    | cons u ts => exact .noOperator next
  | operator found right more ihRight ihMore =>
    exact fun hp => .operator found (ihRight nofun) (ihMore hp)
  | string kind => exact fun _ => .string kind
  | number kind value => exact fun _ => .number kind value
  | variableName kind conditions more ihConditions ihMore =>
    exact fun _ => .variableName kind (ihConditions nofun) (ihMore nofun)
  | call kind inside allowed conditions more ihInside ihConditions ihMore =>
    exact fun _ => .call kind (ihInside nofun) allowed (ihConditions nofun) (ihMore nofun)
  | prefixedCall kind kind' inside allowed conditions more ihInside ihConditions ihMore =>
    exact fun _ => .prefixedCall kind kind' (ihInside nofun) allowed (ihConditions nofun)
      (ihMore nofun)
  | root kind kind' => exact fun _ => .root kind kind'
  | rootSlash kind first more ihFirst ihMore =>
    exact fun _ => .rootSlash kind (ihFirst nofun) (ihMore nofun)
  | rootDescent kind first more ihFirst ihMore =>
    exact fun _ => .rootDescent kind (ihFirst nofun) (ihMore nofun)
  | path first more ihFirst ihMore => exact fun _ => .path (ihFirst nofun) (ihMore nofun)
  | noArgument kind => exact fun _ => .noArgument kind
  | argument kind first more ihFirst ihMore =>
    -- an argument is followed by another one or by the end of the call
    have hnext : ∀ {es us vs}, Derives functions (.arguments es) us vs → us ≠ [] := by
      intro es us vs hmore
      cases hmore <;> exact List.cons_ne_nil _ _
    exact fun _ => .argument kind (ihFirst fun _ => hnext more) (ihMore nofun)
  | noStep kind => exact fun _ => .noStep kind
  | slash kind first more ihFirst ihMore =>
    exact fun _ => .slash kind (ihFirst nofun) (ihMore nofun)
  | descent kind first more ihFirst ihMore =>
    exact fun _ => .descent kind (ihFirst nofun) (ihMore nofun)
  | step head conditions ihConditions =>
    exact fun _ => .step (head.extend ht) (ihConditions nofun)
  | noPredicate next => exact fun _ => .noPredicate (next.extend (by simp [ht]))
  | predicate kind first kind' more ihFirst ihMore =>
    exact fun _ => .predicate kind (ihFirst fun _ => List.cons_ne_nil _ _) kind' (ihMore nofun)

/-! ### Two expressions -/

/-- A chain and a second one, with an operator between them. -/
theorem Derives.chain_join {op : Operator} {f : Expr} {ops₁ ops₂ : List (Operator × Expr)}
    (found : operator? t = some op) (right : Derives functions (.operand f) zs us)
    (more : Derives functions (.chain ops₂) us []) :
    ∀ {ts}, Derives functions (.chain ops₁) ts [] →
      Derives functions (.chain (ops₁ ++ (op, f) :: ops₂)) (ts ++ t :: zs) [] := by
  obtain ⟨ht, -⟩ := operator?_eq_some.1 found
  induction ops₁ with
  | nil =>
    intro ts h
    cases h with
    | noOperator next => exact .operator found right more
  | cons o ops₁ ih =>
    intro ts h
    cases h with
    | operator found' right' more' =>
      exact .operator found' (right'.extend ht nofun) (ih more')

/-- The operator between two chains is a token behind the first one and in front of the second. -/
theorem Derives.chain_split {op : Operator} {f : Expr} {ops₁ ops₂ : List (Operator × Expr)} :
    ∀ {ts}, Derives functions (.chain (ops₁ ++ (op, f) :: ops₂)) ts [] →
      ∃ xs t ys, ts = xs ++ t :: ys ∧ operator? t = some op ∧
        Derives functions (.chain ops₁) xs [] ∧
        Derives functions (.expression (assemble f ops₂)) ys [] := by
  induction ops₁ with
  | nil =>
    intro ts h
    cases h with
    | @operator t _ _ _ ts us _ found right more =>
      exact ⟨[], t, ts, rfl, found, .noOperator (notNext_nil _), .expression right more⟩
  | cons o ops₁ ih =>
    intro ts h
    cases h with
    | @operator t' _ _ _ ts us _ found' right' more' =>
      obtain ⟨xs, t, ys, rfl, found, hleft, hright⟩ := ih more'
      obtain ⟨ws, rfl, hfirst⟩ := right'.cut _ _ rfl
      exact ⟨t' :: ws, t, ys, rfl, found, .operator found' hfirst hleft, hright⟩

/-- An operator between the tokens of two expressions joins these, if neither binds more loosely and
the second one binds more tightly. -/
theorem parseTokens_join {op : Operator} {e f : Expr} (found : operator? t = some op)
    (he : parseTokens functions ts = .ok e) (hf : parseTokens functions us = .ok f)
    (hle : op.level ≤ e.level) (hlt : op.level < f.level) :
    parseTokens functions (ts ++ t :: us) = .ok (op.apply e f) := by
  obtain ⟨ht, -⟩ := operator?_eq_some.1 found
  cases parseTokens_eq_ok.1 he with
  | @expression first ops _ mid _ left more =>
    cases parseTokens_eq_ok.1 hf with
    | @expression second ops' _ mid' _ left' more' =>
      rw [← assemble_cut first second (fun o ho => Nat.le_trans hle (level_assemble_le ho))
        fun o ho => Nat.lt_of_lt_of_le hlt (level_assemble_le ho)]
      have hchain := Derives.chain_join found left' more' more
      exact parseTokens_eq_ok.2 (.expression (left.extend ht nofun) hchain)

/-- What is read with an operator at the top is read from tokens on either side of such an operator,
and on the right something that binds more tightly. -/
theorem parseTokens_split {op : Operator} {l r : Expr}
    (h : parseTokens functions ts = .ok (op.apply l r)) :
    ∃ xs t ys, ts = xs ++ t :: ys ∧ operator? t = some op ∧
      parseTokens functions xs = .ok l ∧ op.level ≤ l.level ∧
      parseTokens functions ys = .ok r ∧ op.level < r.level := by
  generalize hop : op.apply l r = e at h
  cases parseTokens_eq_ok.1 h with
  | @expression first ops _ mid _ left more =>
    have hfirst : first.level = 4 := left.normal.2
    have hne : ops ≠ [] := by
      rintro rfl
      have hlevel := congrArg Expr.level hop
      rw [Expr.level_apply, assemble, reduceLevels_nil, hfirst] at hlevel
      exact absurd hlevel (Nat.ne_of_lt op.level_lt)
    obtain ⟨ops₁, op', f, ops₂, rfl, h₁, h₂⟩ := exists_loosest hne
    rw [assemble_cut first f h₁ h₂] at hop
    obtain ⟨rfl, rfl, rfl⟩ := Operator.apply_inj hop
    obtain ⟨xs, t, ys, rfl, found, hops, hright⟩ := more.chain_split
    obtain ⟨ws, rfl, hleft⟩ := left.cut _ _ rfl
    have hf : f.level = 4 := (more.normal (op, f) (by simp)).2
    refine ⟨ws, t, ys, rfl, found, parseTokens_eq_ok.2 (.expression hleft hops), ?_,
      parseTokens_eq_ok.2 hright, ?_⟩
    · exact le_level_assemble (hfirst ▸ Nat.le_of_lt op.level_lt) h₁
    · exact le_level_assemble (hf ▸ op.level_lt) h₂

/-! ### Chains of one connective -/

/-- The tokens are operands with the same connective between any two of them: the first operand and
the others in their order.  Each operand is read on its own and binds more tightly than the
connective. -/
inductive Joined (functions : Registry) (op : Connective) : Expr → List Expr → List Token → Prop
  | one {e ts} (read : parseTokens functions ts = .ok e)
    (tight : (Operator.connective op).level < e.level) : Joined functions op e [] ts
  | more {e es ts t f us} (front : Joined functions op e es ts)
    (kind : t.kind = .operator) (text : t.text = op.word)
    (read : parseTokens functions us = .ok f) (tight : (Operator.connective op).level < f.level) :
    Joined functions op e (es ++ [f]) (ts ++ t :: us)

variable {op : Connective} {e : Expr} {es : List Expr}

theorem Joined.tight (h : Joined functions op e es ts) (hes : es = []) :
    (Operator.connective op).level < e.level := by
  cases h with
  | one _ tight => exact tight
  | more => exact absurd hes (by simp)

/-- Operands with a connective between them are grouped from the left. -/
theorem Joined.parseTokens_eq (h : Joined functions op e es ts) :
    parseTokens functions ts = .ok (es.foldl (.connect op) e) ∧
      (Operator.connective op).level ≤ (es.foldl (.connect op) e).level := by
  induction h with
  | one read tight => exact ⟨read, Nat.le_of_lt tight⟩
  | more front kind text read tight ih =>
    rw [List.foldl_append, List.foldl_cons, List.foldl_nil]
    have found : operator? _ = some (.connective op) := operator?_eq_some.2 ⟨kind, text⟩
    exact ⟨parseTokens_join found ih.1 read ih.2 tight, Nat.le_refl _⟩

/-- What is read and does not bind more loosely than a connective is a chain of operands with that
connective, of one operand if it binds more tightly. -/
theorem joined_of_parseTokens (h : parseTokens functions ts = .ok e)
    (hle : (Operator.connective op).level ≤ e.level) :
    ∃ first es, Joined functions op first es ts ∧ e = es.foldl (.connect op) first := by
  induction hn : ts.length using Nat.strongRecOn generalizing ts e with
  | ind n ih =>
    rcases Nat.lt_or_eq_of_le hle with hlt | heq
    · exact ⟨e, [], .one h hlt, rfl⟩
    · obtain ⟨l, r, rfl⟩ := exists_connect_of_level heq
      have hsplit : parseTokens functions ts = .ok ((Operator.connective op).apply l r) := h
      obtain ⟨xs, t, ys, rfl, found, hl, hll, hr, hrl⟩ := parseTokens_split hsplit
      obtain ⟨kind, text⟩ := operator?_eq_some.1 found
      have hshort : xs.length < n := by
        rw [← hn, List.length_append, List.length_cons]
        omega
      obtain ⟨first, es, hjoined, rfl⟩ := ih _ hshort hl hll rfl
      refine ⟨first, es ++ [r], .more hjoined kind text hr hrl, ?_⟩
      rw [List.foldl_append, List.foldl_cons, List.foldl_nil]

end Parser
end XPath
