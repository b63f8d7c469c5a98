import XPath.Expr.Parser
import XPath.Proofs.Outcome

/-!
# The grammar behind the reader

The reader of expressions is a system of ten functions that call each other.  What they read is a
grammar, and here it is written as one: a relation between a phrase, the tokens in front of it and
the tokens behind it.  Facts about everything that can be read are proved by induction on it.

* `Phrase`: what one of the functions reads;
* `StepHead`, `Derives`: the grammar;
* `sound`, `isRead_of_derives`: what is read is derived, and what is derived is read;
* `parse_eq_ok`: a text is parsed to what the grammar derives from its tokens.
-/

namespace XPath
namespace Parser

/-! ### The grammar -/

/-- No token follows that satisfies a condition. -/
def NotNext (p : Token → Prop) (ts : List Token) : Prop :=
  ∀ t ∈ ts.head?, ¬p t

/-- The axis that is written before a step, between the tokens before and behind it. -/
inductive WrittenAxis : Option Axis → List Token → List Token → Prop
  | axis {t ts a} (kind : t.kind = .axis) (found : Axis.ofName? t.text = some a) :
    WrittenAxis (some a) (t :: ts) ts
  | attributeSign {t ts} (kind : t.kind = .attributeSign) :
    WrittenAxis (some .attribute) (t :: ts) ts
  | nothing {ts} : WrittenAxis none ts ts

def plainNodeTypes : List (String × NodeTest) :=
  [("text", .text), ("node", .node), ("comment", .comment)]

/-- The node test behind the given axis and the axis that it settles. -/
inductive WrittenTest (explicit : Option Axis) : Axis → NodeTest → List Token → List Token → Prop
  | name {t ts a test} (kind : t.kind = .name) (head : namedStep explicit t.text = .ok (a, test)) :
    WrittenTest explicit a test (t :: ts) ts
  | nameSpace {t u ts} (kind : t.kind = .nameSpace) (kind' : u.kind = .name) :
    WrittenTest explicit (explicit.getD .child) (.name (some t.text) u.text) (t :: u :: ts) ts
  | nodeType {t ts test} (kind : t.kind = .nodeType) (plain : (t.text, test) ∈ plainNodeTypes) :
    WrittenTest explicit (explicit.getD .child) test (t :: ts) ts
  | instruction {t ts} (kind : t.kind = .nodeType) (text : t.text = "processing-instruction")
    (next : NotNext (·.kind = .target) ts) :
    WrittenTest explicit (explicit.getD .child) (.instruction none) (t :: ts) ts
  | target {t u ts} (kind : t.kind = .nodeType) (text : t.text = "processing-instruction")
    (kind' : u.kind = .target) :
    WrittenTest explicit (explicit.getD .child) (.instruction (some u.text)) (t :: u :: ts) ts

/-- The axis and the node test of a step. -/
def StepHead (a : Axis) (test : NodeTest) (ts us : List Token) : Prop :=
  ∃ explicit mid, WrittenAxis explicit ts mid ∧ WrittenTest explicit a test mid us

/-- What one of the functions reads. -/
inductive Phrase
  | expression (e : Expr)
  | chain (ops : List (Operator × Expr))
  | operand (e : Expr)
  | arguments (es : List Expr)
  | steps (ss : List (Step Expr))
  | step (s : Step Expr)
  | predicates (es : List Expr)

/-- A phrase between the tokens before and behind it. -/
inductive Derives (functions : Registry) : Phrase → List Token → List Token → Prop
  | expression {first ops ts us vs} (left : Derives functions (.operand first) ts us)
    (more : Derives functions (.chain ops) us vs) :
    Derives functions (.expression (assemble first ops)) ts vs
  | noOperator {ts} (next : NotNext (fun t => (operator? t).isSome) ts) :
    Derives functions (.chain []) ts ts
  | operator {t op e ops ts us vs} (found : operator? t = some op)
    (right : Derives functions (.operand e) ts us) (more : Derives functions (.chain ops) us vs) :
    Derives functions (.chain ((op, e) :: ops)) (t :: ts) vs
  | string {t ts} (kind : t.kind = .string) :
    Derives functions (.operand (.literal t.text)) (t :: ts) ts
  | number {t x ts} (kind : t.kind = .number)
    (value : Number.ofUnsigned? false t.text.toList = some x) :
    Derives functions (.operand (.number x)) (t :: ts) ts
  | variableName {t ps ss ts us vs} (kind : t.kind = .variable)
    (conditions : Derives functions (.predicates ps) ts us)
    (more : Derives functions (.steps ss) us vs) :
    Derives functions (.operand (narrowed (.variable t.text) ps ss)) (t :: ts) vs
  | call {t es ps ss ts us vs ws} (kind : t.kind = .call)
    (inside : Derives functions (.arguments es) ts us)
    (allowed : functions.check t.text es.length = .ok ())
    (conditions : Derives functions (.predicates ps) us vs)
    (more : Derives functions (.steps ss) vs ws) :
    Derives functions (.operand (narrowed (.call t.text es) ps ss)) (t :: ts) ws
  | prefixedCall {t u es ps ss ts us vs ws} (kind : t.kind = .nameSpace) (kind' : u.kind = .call)
    (inside : Derives functions (.arguments es) ts us)
    (allowed : functions.check (t.text ++ ":" ++ u.text) es.length = .ok ())
    (conditions : Derives functions (.predicates ps) us vs)
    (more : Derives functions (.steps ss) vs ws) :
    Derives functions (.operand (narrowed (.call (t.text ++ ":" ++ u.text) es) ps ss))
      (t :: u :: ts) ws
  | root {t u ts} (kind : t.kind = .rootSlash) (kind' : u.kind = .pathEnd) :
    Derives functions (.operand (.path true [])) (t :: u :: ts) ts
  | rootSlash {t s ss ts us vs} (kind : t.kind = .rootSlash)
    (first : Derives functions (.step s) ts us) (more : Derives functions (.steps ss) us vs) :
    Derives functions (.operand (.path true (s :: ss))) (t :: ts) vs
  | rootDescent {t s ss ts us vs} (kind : t.kind = .rootDescent)
    (first : Derives functions (.step s) ts us) (more : Derives functions (.steps ss) us vs) :
    Derives functions (.operand (.path true (.anyBelow :: s :: ss))) (t :: ts) vs
  | path {s ss ts us vs} (first : Derives functions (.step s) ts us)
    (more : Derives functions (.steps ss) us vs) :
    Derives functions (.operand (.path false (s :: ss))) ts vs
  | noArgument {t ts} (kind : t.kind = .callEnd) : Derives functions (.arguments []) (t :: ts) ts
  | argument {t e es ts us vs} (kind : t.kind = .argument)
    (first : Derives functions (.expression e) ts us)
    (more : Derives functions (.arguments es) us vs) :
    Derives functions (.arguments (e :: es)) (t :: ts) vs
  | noStep {t ts} (kind : t.kind = .pathEnd) : Derives functions (.steps []) (t :: ts) ts
  | slash {t s ss ts us vs} (kind : t.kind = .slash) (first : Derives functions (.step s) ts us)
    (more : Derives functions (.steps ss) us vs) :
    Derives functions (.steps (s :: ss)) (t :: ts) vs
  | descent {t s ss ts us vs} (kind : t.kind = .descent)
    (first : Derives functions (.step s) ts us) (more : Derives functions (.steps ss) us vs) :
    Derives functions (.steps (.anyBelow :: s :: ss)) (t :: ts) vs
  | step {a test ps ts us vs} (head : StepHead a test ts us)
    (conditions : Derives functions (.predicates ps) us vs) :
    Derives functions (.step ⟨a, test, ps⟩) ts vs
  | noPredicate {ts} (next : NotNext (·.kind = .predicateStart) ts) :
    Derives functions (.predicates []) ts ts
  | predicate {t u e es ts us vs} (kind : t.kind = .predicateStart)
    (first : Derives functions (.expression e) ts (u :: us)) (kind' : u.kind = .predicateEnd)
    (more : Derives functions (.predicates es) us vs) :
    Derives functions (.predicates (e :: es)) (t :: ts) vs

/-! ### Readings -/

/-- A reading gives a value and leaves some tokens. -/
def Reads {α : Type} {bound : Nat} (r : Reading α bound) (v : α) (rest : List Token) : Prop :=
  ∃ h, r = .ok ⟨v, rest, h⟩

section Readings

variable {α β : Type} {a b : Nat} {v : α} {rest : List Token}

@[simp] theorem reads_ok {w : α} {us : List Token} {h : us.length < b} :
    Reads (.ok ⟨w, us, h⟩ : Reading α b) v rest ↔ w = v ∧ us = rest := by
  constructor
  · rintro ⟨_, h'⟩
    simpa using h'
  · rintro ⟨rfl, rfl⟩
    exact ⟨h, rfl⟩

@[simp] theorem reads_pure {w : α} {us : List Token} {h : us.length < b} :
    Reads (pure ⟨w, us, h⟩ : Reading α b) v rest ↔ w = v ∧ us = rest :=
  reads_ok

@[simp] theorem not_reads_error {e : ParseError} : ¬Reads (.error e : Reading α b) v rest := by
  rintro ⟨_, h⟩
  simp at h

theorem reads_bind {x : Reading β a} {f : Parsed β a → Reading α b} :
    Reads (x >>= f) v rest ↔ ∃ w us h, x = .ok ⟨w, us, h⟩ ∧ Reads (f ⟨w, us, h⟩) v rest := by
  cases x with
  | error e =>
    constructor
    · rintro ⟨_, h⟩
      simp [bind, Except.bind] at h
    · rintro ⟨_, _, _, h, -⟩
      simp at h
  | ok p =>
    constructor
    · rintro h
      exact ⟨p.value, p.rest, p.shorter, rfl, h⟩
    · rintro ⟨w, us, h, hp, hf⟩
      cases hp
      exact hf

theorem Reads.length_lt {r : Reading α b} (h : Reads r v rest) : rest.length < b := by
  obtain ⟨hlt, -⟩ := h
  exact hlt

end Readings

/-! ### Heads of steps -/

theorem writtenAxis_of_axis {ts us : List Token} {explicit : Option Axis}
    (h : Reads (axis ts) explicit us) : WrittenAxis explicit ts us := by
  cases ts with
  | nil =>
    obtain ⟨rfl, rfl⟩ := reads_ok.1 h
    exact .nothing
  | cons t ts =>
    simp only [axis] at h
    split at h
    · rename_i kind
      split at h
      · rename_i a found
        obtain ⟨rfl, rfl⟩ := reads_ok.1 h
        exact .axis kind found
      · exact absurd h not_reads_error
    · split at h
      · rename_i kind
        obtain ⟨rfl, rfl⟩ := reads_ok.1 h
        exact .attributeSign kind
      · obtain ⟨rfl, rfl⟩ := reads_ok.1 h
        exact .nothing

theorem reads_expect {kind : Token.Kind} {ts us : List Token} {t : Token} :
    Reads (expect kind ts) t us ↔ ts = t :: us ∧ t.kind = kind := by
  cases ts with
  | nil =>
    constructor
    · exact fun h => absurd h not_reads_error
    · exact fun h => absurd h.1 (by simp)
  | cons u ts =>
    rw [expect]
    split
    · rename_i hkind
      rw [reads_ok, List.cons.injEq]
      exact ⟨fun h => ⟨h, h.1 ▸ hkind⟩, fun h => h.1⟩
    · rename_i hkind
      constructor
      · exact fun h => absurd h not_reads_error
      · rintro ⟨heq, hkind'⟩
        cases heq
        exact absurd hkind' hkind

theorem writtenTest_of_nodeType {explicit : Option Axis} {t : Token} {ts us : List Token}
    {test : NodeTest} (kind : t.kind = .nodeType) (h : Reads (nodeType t.text ts) test us) :
    WrittenTest explicit (explicit.getD .child) test (t :: ts) us := by
  unfold nodeType at h
  split at h
  · rename_i htext
    obtain ⟨rfl, rfl⟩ := reads_ok.1 h
    exact .nodeType kind (by simp [plainNodeTypes, htext])
  split at h
  · rename_i htext
    obtain ⟨rfl, rfl⟩ := reads_ok.1 h
    exact .nodeType kind (by simp [plainNodeTypes, htext])
  split at h
  · rename_i htext
    obtain ⟨rfl, rfl⟩ := reads_ok.1 h
    exact .nodeType kind (by simp [plainNodeTypes, htext])
  split at h
  · rename_i htext
    split at h
    · obtain ⟨rfl, rfl⟩ := reads_ok.1 h
      exact .instruction kind htext (by simp [NotNext])
    · split at h
      · rename_i kind'
        obtain ⟨rfl, rfl⟩ := reads_ok.1 h
        exact .target kind htext kind'
      · rename_i kind'
        obtain ⟨rfl, rfl⟩ := reads_ok.1 h
        exact .instruction kind htext (by simp [NotNext, kind'])
  · exact absurd h not_reads_error

theorem writtenTest_of_nodeTest {explicit : Option Axis} {ts us : List Token} {a : Axis}
    {test : NodeTest} (h : Reads (nodeTest explicit ts) (a, test) us) :
    WrittenTest explicit a test ts us := by
  cases ts with
  | nil => exact absurd h not_reads_error
  | cons t ts =>
    simp only [nodeTest] at h
    split at h
    · rename_i kind
      cases hhead : namedStep explicit t.text with
      | error e =>
        rw [hhead] at h
        exact absurd h not_reads_error
      | ok head =>
        rw [hhead] at h
        obtain ⟨rfl, rfl⟩ := reads_pure.1 h
        exact .name kind hhead
    · rename_i kind
      obtain ⟨u, vs, hvs, hname, h⟩ := reads_bind.1 h
      obtain ⟨heq, rfl⟩ := reads_pure.1 h
      obtain ⟨rfl, kind'⟩ := reads_expect.1 ⟨_, hname⟩
      cases heq
      exact .nameSpace kind kind'
    · rename_i kind
      obtain ⟨test', vs, hvs, htype, h⟩ := reads_bind.1 h
      obtain ⟨heq, rfl⟩ := reads_pure.1 h
      cases heq
      exact writtenTest_of_nodeType kind ⟨_, htype⟩
    · exact absurd h not_reads_error

theorem stepHead_of_reads {ts us : List Token} {a : Axis} {test : NodeTest}
    (h : Reads (Parser.stepHead ts) (a, test) us) : StepHead a test ts us := by
  unfold stepHead at h
  obtain ⟨explicit, mid, _, hexplicit, h⟩ := reads_bind.1 h
  obtain ⟨head, rest, _, htest, h⟩ := reads_bind.1 h
  obtain ⟨rfl, rfl⟩ := reads_pure.1 h
  exact ⟨explicit, mid, writtenAxis_of_axis ⟨_, hexplicit⟩, writtenTest_of_nodeTest ⟨_, htest⟩⟩

/-! ### What is read is derived -/

/-- Whatever is read from the tokens is derived. -/
structure Sound (functions : Registry) (ts : List Token) : Prop where
  expression : ∀ e us, Reads (expression functions ts) e us →
    Derives functions (.expression e) ts us
  chain : ∀ ops us, Reads (operators functions ts) ops us → Derives functions (.chain ops) ts us
  operand : ∀ e us, Reads (operand functions ts) e us → Derives functions (.operand e) ts us
  arguments : ∀ es us, Reads (arguments functions ts) es us →
    Derives functions (.arguments es) ts us
  steps : ∀ ss us, Reads (steps functions ts) ss us → Derives functions (.steps ss) ts us
  step : ∀ s us, Reads (step functions ts) s us → Derives functions (.step s) ts us
  predicates : ∀ es us, Reads (predicates functions ts) es us →
    Derives functions (.predicates es) ts us

section Sound

variable {functions : Registry} {ts us : List Token}

theorem derives_of_predicates (ih : ∀ vs, vs.length < ts.length → Sound functions vs)
    {es : List Expr} (h : Reads (predicates functions ts) es us) :
    Derives functions (.predicates es) ts us := by
  cases ts with
  | nil =>
    rw [predicates] at h
    obtain ⟨rfl, rfl⟩ := reads_pure.1 h
    exact .noPredicate (by simp [NotNext])
  | cons t ts =>
    rw [predicates] at h
    split at h
    · rename_i kind
      obtain ⟨e, ts₁, h₁, hfirst, h⟩ := reads_bind.1 h
      obtain ⟨u, ts₂, h₂, hend, h⟩ := reads_bind.1 h
      obtain ⟨es, ts₃, h₃, hmore, h⟩ := reads_bind.1 h
      obtain ⟨rfl, rfl⟩ := reads_pure.1 h
      obtain ⟨rfl, kind'⟩ := reads_expect.1 ⟨_, hend⟩
      have hlt : ts.length < (t :: ts).length := Nat.lt_succ_self _
      exact .predicate kind ((ih ts hlt).expression _ _ ⟨_, hfirst⟩) kind'
        ((ih ts₂ (by omega)).predicates _ _ ⟨_, hmore⟩)
    · rename_i kind
      obtain ⟨rfl, rfl⟩ := reads_pure.1 h
      exact .noPredicate (by simp [NotNext, kind])

theorem derives_of_step (ih : ∀ vs, vs.length < ts.length → Sound functions vs)
    {s : Step Expr} (h : Reads (step functions ts) s us) : Derives functions (.step s) ts us := by
  rw [step] at h
  obtain ⟨⟨a, test⟩, ts₁, h₁, hhead, h⟩ := reads_bind.1 h
  obtain ⟨es, ts₂, h₂, hmore, h⟩ := reads_bind.1 h
  obtain ⟨rfl, rfl⟩ := reads_pure.1 h
  exact .step (stepHead_of_reads ⟨_, hhead⟩) ((ih ts₁ h₁).predicates _ _ ⟨_, hmore⟩)

theorem derives_of_steps (ih : ∀ vs, vs.length < ts.length → Sound functions vs)
    {ss : List (Step Expr)} (h : Reads (steps functions ts) ss us) :
    Derives functions (.steps ss) ts us := by
  cases ts with
  | nil =>
    rw [steps] at h
    exact absurd h not_reads_error
  | cons t ts =>
    have hlt : ts.length < (t :: ts).length := Nat.lt_succ_self _
    rw [steps] at h
    split at h
    · rename_i kind
      obtain ⟨rfl, rfl⟩ := reads_pure.1 h
      exact .noStep kind
    · rename_i kind
      obtain ⟨s, ts₁, h₁, hfirst, h⟩ := reads_bind.1 h
      obtain ⟨ss, ts₂, h₂, hmore, h⟩ := reads_bind.1 h
      obtain ⟨rfl, rfl⟩ := reads_pure.1 h
      exact .slash kind ((ih ts hlt).step _ _ ⟨_, hfirst⟩)
        ((ih ts₁ (by omega)).steps _ _ ⟨_, hmore⟩)
    · rename_i kind
      obtain ⟨s, ts₁, h₁, hfirst, h⟩ := reads_bind.1 h
      obtain ⟨ss, ts₂, h₂, hmore, h⟩ := reads_bind.1 h
      obtain ⟨rfl, rfl⟩ := reads_pure.1 h
      exact .descent kind ((ih ts hlt).step _ _ ⟨_, hfirst⟩)
        ((ih ts₁ (by omega)).steps _ _ ⟨_, hmore⟩)
    · exact absurd h not_reads_error

theorem derives_of_arguments (ih : ∀ vs, vs.length < ts.length → Sound functions vs)
    {es : List Expr} (h : Reads (arguments functions ts) es us) :
    Derives functions (.arguments es) ts us := by
  cases ts with
  | nil =>
    rw [arguments] at h
    exact absurd h not_reads_error
  | cons t ts =>
    have hlt : ts.length < (t :: ts).length := Nat.lt_succ_self _
    rw [arguments] at h
    split at h
    · rename_i kind
      obtain ⟨rfl, rfl⟩ := reads_pure.1 h
      exact .noArgument kind
    · rename_i kind
      obtain ⟨e, ts₁, h₁, hfirst, h⟩ := reads_bind.1 h
      obtain ⟨es, ts₂, h₂, hmore, h⟩ := reads_bind.1 h
      obtain ⟨rfl, rfl⟩ := reads_pure.1 h
      exact .argument kind ((ih ts hlt).expression _ _ ⟨_, hfirst⟩)
        ((ih ts₁ (by omega)).arguments _ _ ⟨_, hmore⟩)
    · exact absurd h not_reads_error

theorem derives_of_operators (ih : ∀ vs, vs.length < ts.length → Sound functions vs)
    {ops : List (Operator × Expr)} (h : Reads (operators functions ts) ops us) :
    Derives functions (.chain ops) ts us := by
  cases ts with
  | nil =>
    rw [operators] at h
    obtain ⟨rfl, rfl⟩ := reads_pure.1 h
    exact .noOperator (by simp [NotNext])
  | cons t ts =>
    have hlt : ts.length < (t :: ts).length := Nat.lt_succ_self _
    rw [operators] at h
    split at h
    · rename_i hop
      obtain ⟨rfl, rfl⟩ := reads_pure.1 h
      exact .noOperator (by simp [NotNext, hop])
    · rename_i op hop
      obtain ⟨e, ts₁, h₁, hright, h⟩ := reads_bind.1 h
      obtain ⟨ops, ts₂, h₂, hops, h⟩ := reads_bind.1 h
      obtain ⟨rfl, rfl⟩ := reads_pure.1 h
      exact .operator hop ((ih ts hlt).operand _ _ ⟨_, hright⟩)
        ((ih ts₁ (by omega)).chain _ _ ⟨_, hops⟩)

theorem derives_of_path (ih : ∀ vs, vs.length < ts.length → Sound functions vs) {e : Expr}
    (h : Reads (path functions ts) e us) : Derives functions (.operand e) ts us := by
  cases ts with
  | nil =>
    rw [path] at h
    exact absurd h not_reads_error
  | cons t ts =>
    have hlt : ts.length < (t :: ts).length := Nat.lt_succ_self _
    rw [path.eq_def] at h
    simp only at h
    split at h
    · rename_i kind
      split at h
      · exact absurd h not_reads_error
      · rename_i u vs
        split at h
        · rename_i kind'
          obtain ⟨rfl, rfl⟩ := reads_pure.1 h
          exact .root kind kind'
        · obtain ⟨s, ts₁, h₁, hfirst, h⟩ := reads_bind.1 h
          obtain ⟨ss, ts₂, h₂, hmore, h⟩ := reads_bind.1 h
          obtain ⟨rfl, rfl⟩ := reads_pure.1 h
          exact .rootSlash kind ((ih _ hlt).step _ _ ⟨_, hfirst⟩)
            ((ih ts₁ (by omega)).steps _ _ ⟨_, hmore⟩)
    · rename_i kind
      obtain ⟨s, ts₁, h₁, hfirst, h⟩ := reads_bind.1 h
      obtain ⟨ss, ts₂, h₂, hmore, h⟩ := reads_bind.1 h
      obtain ⟨rfl, rfl⟩ := reads_pure.1 h
      exact .rootDescent kind ((ih ts hlt).step _ _ ⟨_, hfirst⟩)
        ((ih ts₁ (by omega)).steps _ _ ⟨_, hmore⟩)
    · obtain ⟨s, ts₁, h₁, hfirst, h⟩ := reads_bind.1 h
      obtain ⟨ss, ts₂, h₂, hmore, h⟩ := reads_bind.1 h
      obtain ⟨rfl, rfl⟩ := reads_pure.1 h
      exact .path (derives_of_step ih ⟨_, hfirst⟩) ((ih ts₁ h₁).steps _ _ ⟨_, hmore⟩)

/-- Behind a primary expression come predicates and then steps. -/
theorem reads_filtered {primary e : Expr} : Reads (filtered functions primary ts) e us ↔
    ∃ ps mid ss, Reads (predicates functions ts) ps mid ∧ Reads (steps functions mid) ss us ∧
      narrowed primary ps ss = e := by
  rw [filtered]
  constructor
  · intro h
    obtain ⟨ps, ts₁, h₁, hconditions, h⟩ := reads_bind.1 h
    obtain ⟨ss, ts₂, h₂, hmore, h⟩ := reads_bind.1 h
    obtain ⟨rfl, rfl⟩ := reads_pure.1 h
    exact ⟨ps, ts₁, ss, ⟨_, hconditions⟩, ⟨_, hmore⟩, rfl⟩
  · rintro ⟨ps, ts₁, ss, ⟨_, hconditions⟩, ⟨_, hmore⟩, rfl⟩
    exact reads_bind.2 ⟨_, _, _, hconditions,
      reads_bind.2 ⟨_, _, _, hmore, reads_pure.2 ⟨rfl, rfl⟩⟩⟩

/-- A call is read with its arguments if it is allowed. -/
theorem reads_call {name : String} {e : Expr} : Reads (call functions name ts) e us ↔
    ∃ es, Reads (arguments functions ts) es us ∧ functions.check name es.length = .ok () ∧
      .call name es = e := by
  rw [call]
  constructor
  · intro h
    obtain ⟨es, ts₁, h₁, hinside, h⟩ := reads_bind.1 h
    simp only at h
    split at h
    · rename_i hallowed
      obtain ⟨rfl, rfl⟩ := reads_pure.1 h
      exact ⟨es, ⟨_, hinside⟩, hallowed, rfl⟩
    · exact absurd h not_reads_error
  · rintro ⟨es, ⟨_, hinside⟩, hallowed, rfl⟩
    refine reads_bind.2 ⟨_, _, _, hinside, ?_⟩
    simp only [hallowed]
    exact reads_pure.2 ⟨rfl, rfl⟩

theorem derives_of_operand (ih : ∀ vs, vs.length < ts.length → Sound functions vs) {e : Expr}
    (h : Reads (operand functions ts) e us) : Derives functions (.operand e) ts us := by
  cases ts with
  | nil =>
    rw [operand] at h
    exact absurd h not_reads_error
  | cons t ts =>
    have hlt : ts.length < (t :: ts).length := Nat.lt_succ_self _
    rw [operand.eq_def] at h
    simp only at h
    split at h
    · rename_i kind
      obtain ⟨rfl, rfl⟩ := reads_pure.1 h
      exact .string kind
    · rename_i kind
      split at h
      · rename_i x value
        obtain ⟨rfl, rfl⟩ := reads_pure.1 h
        exact .number kind value
      · exact absurd h not_reads_error
    -- a variable
    · rename_i kind
      obtain ⟨e, ts₁, h₁, hfiltered, h⟩ := reads_bind.1 h
      obtain ⟨rfl, rfl⟩ := reads_pure.1 h
      obtain ⟨ps, ts₂, ss, hconditions, hmore, rfl⟩ := reads_filtered.1 ⟨_, hfiltered⟩
      have h₂ := hconditions.length_lt
      exact .variableName kind ((ih ts hlt).predicates _ _ hconditions)
        ((ih ts₂ (by omega)).steps _ _ hmore)
    -- a call
    · rename_i kind
      obtain ⟨e, ts₁, h₁, hcall, h⟩ := reads_bind.1 h
      obtain ⟨e, ts₂, h₂, hfiltered, h⟩ := reads_bind.1 h
      obtain ⟨rfl, rfl⟩ := reads_pure.1 h
      obtain ⟨es, hinside, hallowed, rfl⟩ := reads_call.1 ⟨_, hcall⟩
      obtain ⟨ps, ts₂, ss, hconditions, hmore, rfl⟩ := reads_filtered.1 ⟨_, hfiltered⟩
      have h₂ : ts₂.length < ts₁.length + 1 := hconditions.length_lt
      exact .call kind ((ih ts hlt).arguments _ _ hinside) hallowed
        ((ih ts₁ (by omega)).predicates _ _ hconditions) ((ih ts₂ (by omega)).steps _ _ hmore)
    -- a prefix, of a function or of the first step of a path
    · rename_i kind
      split at h
      · exact derives_of_path ih h
      · rename_i u vs
        split at h
        · rename_i kind'
          obtain ⟨e, ts₁, h₁, hcall, h⟩ := reads_bind.1 h
          obtain ⟨e, ts₂, h₂, hfiltered, h⟩ := reads_bind.1 h
          obtain ⟨rfl, rfl⟩ := reads_pure.1 h
          obtain ⟨es, hinside, hallowed, rfl⟩ := reads_call.1 ⟨_, hcall⟩
          obtain ⟨ps, ts₂, ss, hconditions, hmore, rfl⟩ := reads_filtered.1 ⟨_, hfiltered⟩
          have h₂ : ts₂.length < ts₁.length + 1 := hconditions.length_lt
          have hvs : vs.length < (u :: vs).length := Nat.lt_succ_self _
          exact .prefixedCall kind kind' ((ih vs (by omega)).arguments _ _ hinside) hallowed
            ((ih ts₁ (by omega)).predicates _ _ hconditions) ((ih ts₂ (by omega)).steps _ _ hmore)
        · exact derives_of_path ih h
    -- any other token begins a path or is not expected
    all_goals first
      | exact absurd h not_reads_error
      | exact derives_of_path ih h

/-- What is read from tokens is derived if what is read from fewer tokens is. -/
theorem sound_of_shorter (ih : ∀ vs, vs.length < ts.length → Sound functions vs) :
    Sound functions ts where
  chain _ _ h := derives_of_operators ih h
  operand _ _ h := derives_of_operand ih h
  arguments _ _ h := derives_of_arguments ih h
  steps _ _ h := derives_of_steps ih h
  step _ _ h := derives_of_step ih h
  predicates _ _ h := derives_of_predicates ih h
  expression e us h := by
    rw [expression] at h
    obtain ⟨first, ts₁, h₁, hfirst, h⟩ := reads_bind.1 h
    obtain ⟨ops, ts₂, h₂, hops, h⟩ := reads_bind.1 h
    obtain ⟨rfl, rfl⟩ := reads_pure.1 h
    exact .expression (derives_of_operand ih ⟨_, hfirst⟩) ((ih ts₁ h₁).chain _ _ ⟨_, hops⟩)

end Sound

/-- Whatever is read is derived. -/
theorem sound (functions : Registry) (ts : List Token) : Sound functions ts := by
  induction hn : ts.length using Nat.strongRecOn generalizing ts with
  | ind n ih => exact sound_of_shorter fun vs hvs => ih _ (hn ▸ hvs) vs rfl

/-! ### What is derived is read -/

/-- The function for a phrase reads it and leaves the tokens behind it. -/
def Phrase.IsRead (functions : Registry) : Phrase → List Token → List Token → Prop
  | .expression e, ts, us => Reads (Parser.expression functions ts) e us
  | .chain ops, ts, us => Reads (operators functions ts) ops us
  | .operand e, ts, us => Reads (Parser.operand functions ts) e us
  | .arguments es, ts, us => Reads (Parser.arguments functions ts) es us
  | .steps ss, ts, us => Reads (Parser.steps functions ts) ss us
  | .step s, ts, us => Reads (Parser.step functions ts) s us
  | .predicates es, ts, us => Reads (Parser.predicates functions ts) es us

/-- A node test begins with one of three kinds of tokens, and no function follows a prefix. -/
theorem WrittenTest.head {explicit : Option Axis} {a : Axis} {test : NodeTest}
    {ts us : List Token} (h : WrittenTest explicit a test ts us) :
    ∃ t rest, ts = t :: rest ∧ (t.kind = .name ∨ t.kind = .nodeType ∨
      (t.kind = .nameSpace ∧ ∃ u vs, rest = u :: vs ∧ u.kind = .name)) := by
  cases h with
  | name kind _ => exact ⟨_, _, rfl, .inl kind⟩
  | nameSpace kind kind' => exact ⟨_, _, rfl, .inr (.inr ⟨kind, _, _, rfl, kind'⟩)⟩
  | nodeType kind _ => exact ⟨_, _, rfl, .inr (.inl kind)⟩
  | instruction kind _ _ => exact ⟨_, _, rfl, .inr (.inl kind)⟩
  | target kind _ _ => exact ⟨_, _, rfl, .inr (.inl kind)⟩

/-- The tokens that begin a step; no function follows a prefix. -/
def beginsStep : List Token → Prop
  | [] => False
  | t :: rest =>
    t.kind = .axis ∨ t.kind = .attributeSign ∨ t.kind = .name ∨ t.kind = .nodeType ∨
      (t.kind = .nameSpace ∧ ∃ u vs, rest = u :: vs ∧ u.kind = .name)

theorem StepHead.begins {a : Axis} {test : NodeTest} {ts us : List Token}
    (h : StepHead a test ts us) : beginsStep ts := by
  obtain ⟨explicit, mid, haxis, htest⟩ := h
  cases haxis with
  | axis kind _ => exact .inl kind
  | attributeSign kind => exact .inr (.inl kind)
  | nothing =>
    obtain ⟨t, rest, rfl, ht⟩ := htest.head
    exact .inr (.inr ht)

theorem reads_axis {explicit : Option Axis} {ts mid us : List Token} {a : Axis} {test : NodeTest}
    (h : WrittenAxis explicit ts mid) (htest : WrittenTest explicit a test mid us) :
    Reads (axis ts) explicit mid := by
  cases h with
  | axis kind found =>
    simp only [axis, kind, if_true, found]
    exact reads_ok.2 ⟨rfl, rfl⟩
  | attributeSign kind =>
    simp only [axis, kind, reduceCtorEq, if_false, if_true]
    exact reads_ok.2 ⟨rfl, rfl⟩
  | nothing =>
    obtain ⟨t, rest, rfl, ht⟩ := htest.head
    have hkind : t.kind ≠ .axis ∧ t.kind ≠ .attributeSign := by
      rcases ht with ht | ht | ⟨ht, -⟩ <;> simp [ht]
    simp only [axis, hkind.1, hkind.2, if_false]
    exact reads_ok.2 ⟨rfl, rfl⟩

theorem reads_nodeType_plain {name : String} {test : NodeTest}
    (h : (name, test) ∈ plainNodeTypes) (ts : List Token) :
    Reads (nodeType name ts) test ts := by
  simp only [plainNodeTypes, List.mem_cons, Prod.mk.injEq, List.not_mem_nil, or_false] at h
  rcases h with ⟨rfl, rfl⟩ | ⟨rfl, rfl⟩ | ⟨rfl, rfl⟩ <;> exact ⟨_, rfl⟩

theorem reads_nodeType_instruction {ts : List Token} (h : NotNext (·.kind = .target) ts) :
    Reads (nodeType "processing-instruction" ts) (.instruction none) ts := by
  cases ts with
  | nil => exact ⟨_, rfl⟩
  | cons t ts =>
    have hkind : t.kind ≠ .target := h t rfl
    simp [nodeType, hkind]

theorem reads_nodeType_target {t : Token} (ts : List Token) (h : t.kind = .target) :
    Reads (nodeType "processing-instruction" (t :: ts)) (.instruction (some t.text)) ts := by
  simp [nodeType, h]

theorem reads_nodeTest {explicit : Option Axis} {ts us : List Token} {a : Axis} {test : NodeTest}
    (h : WrittenTest explicit a test ts us) : Reads (nodeTest explicit ts) (a, test) us := by
  cases h with
  | name kind head =>
    simp only [nodeTest, kind, head]
    exact reads_pure.2 ⟨rfl, rfl⟩
  | @nameSpace t u ts kind kind' =>
    obtain ⟨_, hname⟩ := reads_expect.2 ⟨rfl, kind'⟩
    simp only [nodeTest, kind]
    exact reads_bind.2 ⟨_, _, _, hname, reads_pure.2 ⟨rfl, rfl⟩⟩
  | nodeType kind plain =>
    obtain ⟨_, htype⟩ := reads_nodeType_plain plain us
    simp only [nodeTest, kind]
    exact reads_bind.2 ⟨_, _, _, htype, reads_pure.2 ⟨rfl, rfl⟩⟩
  | instruction kind text next =>
    obtain ⟨_, htype⟩ := reads_nodeType_instruction next
    simp only [nodeTest, kind, text]
    exact reads_bind.2 ⟨_, _, _, htype, reads_pure.2 ⟨rfl, rfl⟩⟩
  | @target t u ts kind text kind' =>
    obtain ⟨_, htype⟩ := reads_nodeType_target us kind'
    simp only [nodeTest, kind, text]
    exact reads_bind.2 ⟨_, _, _, htype, reads_pure.2 ⟨rfl, rfl⟩⟩

theorem reads_stepHead {ts us : List Token} {a : Axis} {test : NodeTest}
    (h : StepHead a test ts us) : Reads (stepHead ts) (a, test) us := by
  obtain ⟨explicit, mid, haxis, htest⟩ := h
  obtain ⟨_, hexplicit⟩ := reads_axis haxis htest
  obtain ⟨_, hhead⟩ := reads_nodeTest htest
  exact reads_bind.2 ⟨_, _, _, hexplicit, reads_bind.2 ⟨_, _, _, hhead, reads_pure.2 ⟨rfl, rfl⟩⟩⟩

theorem Derives.begins {functions : Registry} {s : Step Expr} {ts us : List Token}
    (h : Derives functions (.step s) ts us) : beginsStep ts := by
  cases h with
  | step head conditions => exact head.begins

section Complete

variable {functions : Registry} {t u : Token} {ts us vs ws : List Token} {es ps : List Expr}
  {s : Step Expr} {ss : List (Step Expr)}

theorem reads_noOperator (next : NotNext (fun t => (operator? t).isSome) ts) :
    Reads (operators functions ts) [] ts := by
  rw [operators.eq_def]
  cases ts with
  | nil => exact reads_pure.2 ⟨rfl, rfl⟩
  | cons t ts =>
    have hop : operator? t = none := by simpa using next t rfl
    simp only [hop]
    exact reads_pure.2 ⟨rfl, rfl⟩

theorem reads_noPredicate (next : NotNext (·.kind = .predicateStart) ts) :
    Reads (predicates functions ts) [] ts := by
  rw [predicates.eq_def]
  cases ts with
  | nil => exact reads_pure.2 ⟨rfl, rfl⟩
  | cons t ts =>
    have hkind : t.kind ≠ .predicateStart := next t rfl
    simp only [hkind, if_false]
    exact reads_pure.2 ⟨rfl, rfl⟩

theorem reads_operators {op : Operator} {e : Expr} {ops : List (Operator × Expr)}
    (found : operator? t = some op) (right : Reads (operand functions ts) e us)
    (more : Reads (operators functions us) ops vs) :
    Reads (operators functions (t :: ts)) ((op, e) :: ops) vs := by
  obtain ⟨_, hright⟩ := right
  obtain ⟨_, hmore⟩ := more
  rw [operators]
  simp only [found]
  exact reads_bind.2 ⟨_, _, _, hright, reads_bind.2 ⟨_, _, _, hmore, reads_pure.2 ⟨rfl, rfl⟩⟩⟩

theorem reads_path_rootSlash (kind : t.kind = .rootSlash) (begins : beginsStep ts)
    (first : Reads (step functions ts) s us) (more : Reads (steps functions us) ss vs) :
    Reads (operand functions (t :: ts)) (.path true (s :: ss)) vs := by
  obtain ⟨_, hfirst⟩ := first
  obtain ⟨_, hmore⟩ := more
  cases ts with
  | nil => exact absurd begins id
  | cons u ts =>
    have hkind : u.kind ≠ .pathEnd := by
      rcases begins with h | h | h | h | ⟨h, -⟩ <;> simp [h]
    rw [operand.eq_def]
    simp only [kind]
    rw [path.eq_def]
    simp only [kind, hkind, if_false]
    exact reads_bind.2 ⟨_, _, _, hfirst, reads_bind.2 ⟨_, _, _, hmore, reads_pure.2 ⟨rfl, rfl⟩⟩⟩

theorem reads_path_rootDescent (kind : t.kind = .rootDescent)
    (first : Reads (step functions ts) s us) (more : Reads (steps functions us) ss vs) :
    Reads (operand functions (t :: ts)) (.path true (.anyBelow :: s :: ss)) vs := by
  obtain ⟨_, hfirst⟩ := first
  obtain ⟨_, hmore⟩ := more
  rw [operand.eq_def]
  simp only [kind]
  rw [path.eq_def]
  simp only [kind]
  exact reads_bind.2 ⟨_, _, _, hfirst, reads_bind.2 ⟨_, _, _, hmore, reads_pure.2 ⟨rfl, rfl⟩⟩⟩

theorem reads_path (begins : beginsStep ts) (first : Reads (step functions ts) s us)
    (more : Reads (steps functions us) ss vs) :
    Reads (operand functions ts) (.path false (s :: ss)) vs := by
  obtain ⟨_, hfirst⟩ := first
  obtain ⟨_, hmore⟩ := more
  cases ts with
  | nil => exact absurd begins id
  | cons t ts =>
    have hpath : Reads (path functions (t :: ts)) (.path false (s :: ss)) vs := by
      rw [path.eq_def]
      rcases begins with h | h | h | h | ⟨h, -⟩ <;> simp only [h] <;>
        exact reads_bind.2 ⟨_, _, _, hfirst, reads_bind.2 ⟨_, _, _, hmore, reads_pure.2 ⟨rfl, rfl⟩⟩⟩
    rw [operand.eq_def]
    rcases begins with h | h | h | h | ⟨h, u, rest, rfl, hu⟩
    · simpa only [h] using hpath
    · simpa only [h] using hpath
    · simpa only [h] using hpath
    · simpa only [h] using hpath
    · simpa only [h, hu, reduceCtorEq, if_false] using hpath

theorem reads_expression {e : Expr} {ops : List (Operator × Expr)}
    (left : Reads (operand functions ts) e us) (more : Reads (operators functions us) ops vs) :
    Reads (expression functions ts) (assemble e ops) vs := by
  obtain ⟨_, hleft⟩ := left
  obtain ⟨_, hmore⟩ := more
  rw [expression]
  exact reads_bind.2 ⟨_, _, _, hleft, reads_bind.2 ⟨_, _, _, hmore, reads_pure.2 ⟨rfl, rfl⟩⟩⟩

theorem reads_operand_string (kind : t.kind = .string) :
    Reads (operand functions (t :: ts)) (.literal t.text) ts := by
  rw [operand.eq_def]
  simp only [kind]
  exact reads_pure.2 ⟨rfl, rfl⟩

theorem reads_operand_number {x : Float} (kind : t.kind = .number)
    (value : Number.ofUnsigned? false t.text.toList = some x) :
    Reads (operand functions (t :: ts)) (.number x) ts := by
  rw [operand.eq_def]
  simp only [kind, value]
  exact reads_pure.2 ⟨rfl, rfl⟩

theorem reads_operand_variable (kind : t.kind = .variable)
    (conditions : Reads (predicates functions ts) ps us) (more : Reads (steps functions us) ss vs) :
    Reads (operand functions (t :: ts)) (narrowed (.variable t.text) ps ss) vs := by
  obtain ⟨_, hfiltered⟩ := reads_filtered.2 ⟨_, _, _, conditions, more, rfl⟩
  rw [operand.eq_def]
  simp only [kind]
  exact reads_bind.2 ⟨_, _, _, hfiltered, reads_pure.2 ⟨rfl, rfl⟩⟩

theorem reads_operand_call (kind : t.kind = .call) (inside : Reads (arguments functions ts) es us)
    (allowed : functions.check t.text es.length = .ok ())
    (conditions : Reads (predicates functions us) ps vs) (more : Reads (steps functions vs) ss ws) :
    Reads (operand functions (t :: ts)) (narrowed (.call t.text es) ps ss) ws := by
  obtain ⟨_, hcall⟩ := reads_call.2 ⟨_, inside, allowed, rfl⟩
  obtain ⟨_, hfiltered⟩ := reads_filtered.2 ⟨_, _, _, conditions, more, rfl⟩
  rw [operand.eq_def]
  simp only [kind]
  exact reads_bind.2 ⟨_, _, _, hcall, reads_bind.2 ⟨_, _, _, hfiltered, reads_pure.2 ⟨rfl, rfl⟩⟩⟩

theorem reads_operand_prefixedCall (kind : t.kind = .nameSpace) (kind' : u.kind = .call)
    (inside : Reads (arguments functions ts) es us)
    (allowed : functions.check (t.text ++ ":" ++ u.text) es.length = .ok ())
    (conditions : Reads (predicates functions us) ps vs) (more : Reads (steps functions vs) ss ws) :
    Reads (operand functions (t :: u :: ts))
      (narrowed (.call (t.text ++ ":" ++ u.text) es) ps ss) ws := by
  obtain ⟨_, hcall⟩ := reads_call.2 ⟨_, inside, allowed, rfl⟩
  obtain ⟨_, hfiltered⟩ := reads_filtered.2 ⟨_, _, _, conditions, more, rfl⟩
  rw [operand.eq_def]
  simp only [kind, kind', if_true]
  exact reads_bind.2 ⟨_, _, _, hcall, reads_bind.2 ⟨_, _, _, hfiltered, reads_pure.2 ⟨rfl, rfl⟩⟩⟩

theorem reads_operand_root (kind : t.kind = .rootSlash) (kind' : u.kind = .pathEnd) :
    Reads (operand functions (t :: u :: ts)) (.path true []) ts := by
  rw [operand.eq_def]
  simp only [kind]
  rw [path.eq_def]
  simp only [kind, kind', if_true]
  exact reads_pure.2 ⟨rfl, rfl⟩

theorem reads_noArgument (kind : t.kind = .callEnd) :
    Reads (arguments functions (t :: ts)) [] ts := by
  rw [arguments]
  simp only [kind]
  exact reads_pure.2 ⟨rfl, rfl⟩

theorem reads_argument {e : Expr} (kind : t.kind = .argument)
    (first : Reads (expression functions ts) e us) (more : Reads (arguments functions us) es vs) :
    Reads (arguments functions (t :: ts)) (e :: es) vs := by
  obtain ⟨_, hfirst⟩ := first
  obtain ⟨_, hmore⟩ := more
  rw [arguments]
  simp only [kind]
  exact reads_bind.2 ⟨_, _, _, hfirst, reads_bind.2 ⟨_, _, _, hmore, reads_pure.2 ⟨rfl, rfl⟩⟩⟩

theorem reads_noStep (kind : t.kind = .pathEnd) : Reads (steps functions (t :: ts)) [] ts := by
  rw [steps]
  simp only [kind]
  exact reads_pure.2 ⟨rfl, rfl⟩

theorem reads_slash (kind : t.kind = .slash) (first : Reads (step functions ts) s us)
    (more : Reads (steps functions us) ss vs) :
    Reads (steps functions (t :: ts)) (s :: ss) vs := by
  obtain ⟨_, hfirst⟩ := first
  obtain ⟨_, hmore⟩ := more
  rw [steps]
  simp only [kind]
  exact reads_bind.2 ⟨_, _, _, hfirst, reads_bind.2 ⟨_, _, _, hmore, reads_pure.2 ⟨rfl, rfl⟩⟩⟩

theorem reads_descent (kind : t.kind = .descent) (first : Reads (step functions ts) s us)
    (more : Reads (steps functions us) ss vs) :
    Reads (steps functions (t :: ts)) (.anyBelow :: s :: ss) vs := by
  obtain ⟨_, hfirst⟩ := first
  obtain ⟨_, hmore⟩ := more
  rw [steps]
  simp only [kind]
  exact reads_bind.2 ⟨_, _, _, hfirst, reads_bind.2 ⟨_, _, _, hmore, reads_pure.2 ⟨rfl, rfl⟩⟩⟩

theorem reads_step {a : Axis} {test : NodeTest} (head : StepHead a test ts us)
    (conditions : Reads (predicates functions us) ps vs) :
    Reads (step functions ts) ⟨a, test, ps⟩ vs := by
  obtain ⟨_, hhead⟩ := reads_stepHead head
  obtain ⟨_, hconditions⟩ := conditions
  rw [step]
  exact reads_bind.2 ⟨_, _, _, hhead, reads_bind.2 ⟨_, _, _, hconditions, reads_pure.2 ⟨rfl, rfl⟩⟩⟩

theorem reads_predicate {e : Expr} (kind : t.kind = .predicateStart)
    (first : Reads (expression functions ts) e (u :: us)) (kind' : u.kind = .predicateEnd)
    (more : Reads (predicates functions us) es vs) :
    Reads (predicates functions (t :: ts)) (e :: es) vs := by
  obtain ⟨_, hfirst⟩ := first
  obtain ⟨_, hend⟩ := reads_expect.2 ⟨rfl, kind'⟩
  obtain ⟨_, hmore⟩ := more
  rw [predicates]
  simp only [kind, if_true]
  exact reads_bind.2 ⟨_, _, _, hfirst, reads_bind.2 ⟨_, _, _, hend,
    reads_bind.2 ⟨_, _, _, hmore, reads_pure.2 ⟨rfl, rfl⟩⟩⟩⟩

end Complete

/-- Whatever is derived is read. -/
theorem isRead_of_derives {functions : Registry} {p : Phrase} {ts us : List Token}
    (h : Derives functions p ts us) : p.IsRead functions ts us := by
  induction h with
  | expression left more ihLeft ihMore => exact reads_expression ihLeft ihMore
  | noOperator next => exact reads_noOperator next
  | operator found right more ihRight ihMore => exact reads_operators found ihRight ihMore
  | string kind => exact reads_operand_string kind
  | number kind value => exact reads_operand_number kind value
  | variableName kind conditions more ihConditions ihMore =>
    exact reads_operand_variable kind ihConditions ihMore
  | call kind inside allowed conditions more ihInside ihConditions ihMore =>
    exact reads_operand_call kind ihInside allowed ihConditions ihMore
  | prefixedCall kind kind' inside allowed conditions more ihInside ihConditions ihMore =>
    exact reads_operand_prefixedCall kind kind' ihInside allowed ihConditions ihMore
  | root kind kind' => exact reads_operand_root kind kind'
  | rootSlash kind first more ihFirst ihMore =>
    exact reads_path_rootSlash kind first.begins ihFirst ihMore
  | rootDescent kind first more ihFirst ihMore => exact reads_path_rootDescent kind ihFirst ihMore
  | path first more ihFirst ihMore => exact reads_path first.begins ihFirst ihMore
  | noArgument kind => exact reads_noArgument kind
  | argument kind first more ihFirst ihMore => exact reads_argument kind ihFirst ihMore
  | noStep kind => exact reads_noStep kind
  | slash kind first more ihFirst ihMore => exact reads_slash kind ihFirst ihMore
  | descent kind first more ihFirst ihMore => exact reads_descent kind ihFirst ihMore
  | step head conditions ihConditions => exact reads_step head ihConditions
  | noPredicate next => exact reads_noPredicate next
  | predicate kind first kind' more ihFirst ihMore =>
    exact reads_predicate kind ihFirst kind' ihMore

/-- An expression is read exactly where the grammar derives it. -/
theorem reads_expression_iff {functions : Registry} {e : Expr} {ts us : List Token} :
    Reads (expression functions ts) e us ↔ Derives functions (.expression e) ts us :=
  ⟨(sound functions ts).expression e us, isRead_of_derives⟩

end Parser

/-! ### Whole texts -/

/-- Tokens stand for the expression that the grammar derives from all of them. -/
theorem parseTokens_eq_ok {functions : Registry} {ts : List Token} {e : Expr} :
    parseTokens functions ts = .ok e ↔ Parser.Derives functions (.expression e) ts [] := by
  rw [← Parser.reads_expression_iff]
  unfold parseTokens
  constructor
  · intro h
    split at h
    · simp at h
    split at h
    · simp at h
    · rename_i hread
      cases h
      exact ⟨_, hread⟩
    · simp [Parser.unexpected] at h
  · intro h
    have hne : ts.isEmpty = false := by
      cases ts with
      | nil => exact absurd h.length_lt (Nat.lt_irrefl 0)
      | cons t ts => rfl
    obtain ⟨_, hread⟩ := h
    rw [hne, hread]
    rfl

/-- A text stands for the expression that the grammar derives from its tokens. -/
theorem parse_eq_ok {functions : Registry} {limit : Nat} {s : String} {e : Expr} :
    parse functions limit s = .ok e ↔
      ∃ ts, tokenize limit s = .ok ts ∧ Parser.Derives functions (.expression e) ts [] := by
  unfold parse
  constructor
  · intro h
    split at h
    · simp at h
    · rename_i ts hts
      exact ⟨ts, hts, parseTokens_eq_ok.1 h⟩
  · rintro ⟨ts, hts, h⟩
    rw [hts]
    exact parseTokens_eq_ok.2 h

end XPath
