import XPath.Proofs.Token.Lexed

/-!
# The grammar of the lexer's tokens

The lexer moves between four modes and keeps a stack of what is open.  All the same, the lists of
tokens that it emits are those of a grammar without modes and without a stack.

* `Rule`, `Generates`: the grammar;
* `Tail`, `Closes`: what follows in a mode, cut where an enclosure ends;
* `closes_of_lexed`: whatever may follow in a mode inside brackets closes all of them;
* `Nesting`: what is open between two tokens, and `Generates.keeps`, what a phrase leaves open;
* `tokenize_generated`: the tokens of a text.
-/

namespace XPath
namespace Lexer

/-! ### The grammar -/

/-- The phrases that lists of tokens are made of. -/
inductive Rule
  /-- All the tokens of a text. -/
  | stream
  /-- An expression inside brackets. -/
  | nested
  /-- Operators, each with the operand behind it. -/
  | operators
  | operand
  /-- A path without the token that ends it. -/
  | path
  /-- The steps behind the first one. -/
  | rest
  /-- A step without its predicates. -/
  | step
  /-- One argument or more. -/
  | arguments
  | predicate
  | predicates

/-- The lists of tokens that a rule generates. -/
inductive Generates : Rule → List Token → Prop
  | empty : Generates .stream []
  | whole {xs} (inside : Generates .nested xs) : Generates .stream xs
  /-- At the end of all tokens, and nowhere else, an operator may stand without an operand. -/
  | dangling {xs t} (inside : Generates .nested xs) (kind : t.kind = .operator) :
    Generates .stream (xs ++ [t])
  | nested {xs ys} (first : Generates .operand xs) (more : Generates .operators ys) :
    Generates .nested (xs ++ ys)
  | noOperator : Generates .operators []
  | operator {t xs ys} (kind : t.kind = .operator) (right : Generates .operand xs)
    (more : Generates .operators ys) : Generates .operators (t :: (xs ++ ys))
  | string {t} (kind : t.kind = .string) : Generates .operand [t]
  | number {t} (kind : t.kind = .number) : Generates .operand [t]
  | path {xs t} (inside : Generates .path xs) (kind : t.kind = .pathEnd) :
    Generates .operand (xs ++ [t])
  | root {t} (kind : t.kind = .rootSlash) : Generates .path [t]
  | variableName {t ps xs} (kind : t.kind = .variable) (conditions : Generates .predicates ps)
    (more : Generates .rest xs) : Generates .path (t :: (ps ++ xs))
  | relative {xs ps ys} (first : Generates .step xs) (conditions : Generates .predicates ps)
    (more : Generates .rest ys) : Generates .path (xs ++ (ps ++ ys))
  | absolute {t xs ps ys} (kind : t.kind = .rootSlash ∨ t.kind = .rootDescent)
    (first : Generates .step xs) (conditions : Generates .predicates ps)
    (more : Generates .rest ys) : Generates .path (t :: (xs ++ (ps ++ ys)))
  | noStep : Generates .rest []
  | further {t xs ps ys} (kind : t.kind = .slash ∨ t.kind = .descent)
    (next : Generates .step xs) (conditions : Generates .predicates ps)
    (more : Generates .rest ys) : Generates .rest (t :: (xs ++ (ps ++ ys)))
  | mark {t xs} (kind : t.kind = .axis ∨ t.kind = .attributeSign ∨ t.kind = .nameSpace)
    (more : Generates .step xs) : Generates .step (t :: xs)
  | name {t} (kind : t.kind = .name) : Generates .step [t]
  | nodeType {t} (kind : t.kind = .nodeType) : Generates .step [t]
  | target {t u} (kind : t.kind = .nodeType) (text : t.text = targetedNodeType)
    (kind' : u.kind = .target) : Generates .step [t, u]
  | emptyCall {t u} (kind : t.kind = .call) (kind' : u.kind = .callEnd) : Generates .step [t, u]
  | call {t xs u} (kind : t.kind = .call) (inside : Generates .arguments xs)
    (kind' : u.kind = .callEnd) : Generates .step (t :: (xs ++ [u]))
  | argument {t xs} (kind : t.kind = .argument) (inside : Generates .nested xs) :
    Generates .arguments (t :: xs)
  | arguments {t xs ys} (kind : t.kind = .argument) (inside : Generates .nested xs)
    (more : Generates .arguments ys) : Generates .arguments (t :: (xs ++ ys))
  | predicate {t xs u} (kind : t.kind = .predicateStart) (inside : Generates .nested xs)
    (kind' : u.kind = .predicateEnd) : Generates .predicate (t :: (xs ++ [u]))
  | noPredicate : Generates .predicates []
  | predicates {xs ys} (first : Generates .predicate xs) (more : Generates .predicates ys) :
    Generates .predicates (xs ++ ys)

/-! ### What follows in a mode -/

/-- What follows in a mode up to the end of the expression. -/
inductive Tail : Mode → List Token → Prop
  | operand {us} (inside : Generates .nested us) : Tail .operand us
  | step {xs us} (first : Generates .step xs) (behind : Tail .trail us) : Tail .step (xs ++ us)
  | trail {ps xs t us} (conditions : Generates .predicates ps) (more : Generates .rest xs)
    (kind : t.kind = .pathEnd) (behind : Generates .operators us) :
    Tail .trail (ps ++ (xs ++ t :: us))
  | operator {us} (inside : Generates .operators us) : Tail .operator us

namespace Tail

variable {t : Token} {xs us : List Token}

theorem cons_mark (kind : t.kind = .axis ∨ t.kind = .attributeSign ∨ t.kind = .nameSpace)
    (h : Tail .step us) : Tail .step (t :: us) := by
  cases h with
  | step first behind => exact .step (.mark kind first) behind

theorem cons_slash (kind : t.kind = .slash ∨ t.kind = .descent) (h : Tail .step us) :
    Tail .trail (t :: us) := by
  cases h with
  | step first behind =>
    cases behind with
    | trail conditions more hend behind =>
      have hsteps := Generates.further kind first conditions more
      simpa using Tail.trail .noPredicate hsteps hend behind

theorem cons_pathEnd (kind : t.kind = .pathEnd) (h : Tail .operator us) :
    Tail .trail (t :: us) := by
  cases h with
  | operator inside => exact .trail .noPredicate .noStep kind inside

theorem append_predicate (first : Generates .predicate xs) (h : Tail .trail us) :
    Tail .trail (xs ++ us) := by
  cases h with
  | trail conditions more hend behind =>
    rw [← List.append_assoc]
    exact .trail (.predicates first conditions) more hend behind

theorem append_operand (first : Generates .operand xs) (h : Tail .operator us) :
    Tail .operand (xs ++ us) := by
  cases h with
  | operator inside => exact .operand (.nested first inside)

theorem append_path (inside : Generates .path xs) (kind : t.kind = .pathEnd)
    (h : Generates .operators us) : Tail .operand (xs ++ t :: us) := by
  have hpath := append_operand (.path inside kind) (.operator h)
  simpa using hpath

theorem of_step (h : Tail .step us) : Tail .operand us := by
  cases h with
  | step first behind =>
    cases behind with
    | trail conditions more hend behind =>
      simpa using append_path (.relative first conditions more) hend behind

theorem cons_root (kind : t.kind = .rootSlash ∨ t.kind = .rootDescent) (h : Tail .step us) :
    Tail .operand (t :: us) := by
  cases h with
  | step first behind =>
    cases behind with
    | trail conditions more hend behind =>
      simpa using append_path (.absolute kind first conditions more) hend behind

theorem cons_variable (kind : t.kind = .variable) (h : Tail .trail us) :
    Tail .operand (t :: us) := by
  cases h with
  | trail conditions more hend behind =>
    simpa using append_path (.variableName kind conditions more) hend behind

theorem cons_operator (kind : t.kind = .operator) (h : Tail .operand us) :
    Tail .operator (t :: us) := by
  cases h with
  | operand inside =>
    cases inside with
    | nested first more => exact .operator (.operator kind first more)

end Tail

/-! ### Inside brackets -/

/-- What follows in a mode inside brackets, cut at the token that closes the innermost of them. -/
inductive Closes : Mode → List Bracket → List Token → Prop
  | nothing : Closes .operand [] []
  | whole {mode us} (inside : Tail mode us) : Closes mode [] us
  | dangling {mode us t} (inside : Tail mode us) (kind : t.kind = .operator) :
    Closes mode [] (us ++ [t])
  | predicate {mode es us t vs} (inside : Tail mode us) (kind : t.kind = .predicateEnd)
    (behind : Closes .trail es vs) : Closes mode (.predicate :: es) (us ++ t :: vs)
  /-- More arguments may follow in a call. -/
  | call {mode es us xs t vs} (inside : Tail mode us) (more : xs = [] ∨ Generates .arguments xs)
    (kind : t.kind = .callEnd) (behind : Closes .trail es vs) :
    Closes mode (.call :: es) (us ++ (xs ++ t :: vs))

/-- Tokens that lead from a mode to another lead there inside brackets. -/
theorem Closes.extend {mode next : Mode} {es : List Bracket} {ts : List Token} (xs : List Token)
    (h : Closes next es ts) (hm : next ≠ .operand)
    (hext : ∀ us, Tail next us → Tail mode (xs ++ us)) : Closes mode es (xs ++ ts) := by
  cases h with
  | nothing => exact absurd rfl hm
  | whole inside => exact .whole (hext _ inside)
  | dangling inside kind =>
    rw [← List.append_assoc]
    exact .dangling (hext _ inside) kind
  | predicate inside kind behind =>
    rw [← List.append_assoc]
    exact .predicate (hext _ inside) kind behind
  | call inside more kind behind =>
    rw [← List.append_assoc]
    exact .call (hext _ inside) more kind behind

/-- An operator goes before an operand, or it dangles. -/
theorem Closes.cons_operator {es : List Bracket} {t : Token} {ts : List Token}
    (kind : t.kind = .operator) (h : Closes .operand es ts) : Closes .operator es (t :: ts) := by
  cases h with
  | nothing => exact .dangling (.operator .noOperator) kind
  | whole inside => exact .whole (inside.cons_operator kind)
  | dangling inside kind' => exact .dangling (inside.cons_operator kind) kind'
  | predicate inside kind' behind => exact .predicate (inside.cons_operator kind) kind' behind
  | call inside more kind' behind => exact .call (inside.cons_operator kind) more kind' behind

/-- What a call and the tokens behind it are made of, from its first argument on. -/
theorem Closes.arguments {es : List Bracket} {t : Token} {ts : List Token}
    (kind : t.kind = .argument) (h : Closes .operand (.call :: es) ts) :
    ∃ xs u vs, t :: ts = xs ++ u :: vs ∧ Generates .arguments xs ∧ u.kind = .callEnd ∧
      Closes .trail es vs := by
  cases h with
  | @call _ _ us xs u vs inside more kind' behind =>
    cases inside with
    | operand inside =>
      refine ⟨t :: (us ++ xs), u, vs, by simp, ?_, kind', behind⟩
      rcases more with rfl | more
      · simpa using Generates.argument kind inside
      · exact .arguments kind inside more

/-- The tokens that may follow in a mode inside brackets close all of them, and each encloses what
the grammar generates. -/
theorem closes_of_lexed {limit : Nat} {mode : Mode} {es : List Bracket} {ts : List Token}
    (h : Lexed limit mode es ts) : Closes mode es ts := by
  induction h with
  | noOperand => exact .nothing
  | rootDescent rest ih =>
    exact ih.extend [_] nofun fun us hus => hus.cons_root (.inr rfl)
  | rootSlash opens rest ih =>
    exact ih.extend [_] nofun fun us hus => hus.cons_root (.inl rfl)
  | root opens rest ih =>
    exact ih.extend [_, _] nofun fun us hus => hus.append_operand (.path (.root rfl) rfl)
  | variableName word rest ih =>
    exact ih.extend [_] nofun fun us hus => hus.cons_variable rfl
  | string word rest ih =>
    exact ih.extend [_] nofun fun us hus => hus.append_operand (.string rfl)
  | number word rest ih =>
    exact ih.extend [_] nofun fun us hus => hus.append_operand (.number rfl)
  | path opens noNumber rest ih => exact ih.extend [] nofun fun us hus => hus.of_step
  | axis a rest ih =>
    exact ih.extend [_] nofun fun us hus => hus.cons_mark (.inl rfl)
  | nameSpace word rest ih =>
    exact ih.extend [_] nofun fun us hus => hus.cons_mark (.inr (.inr rfl))
  | attributeSign rest ih =>
    exact ih.extend [_] nofun fun us hus => hus.cons_mark (.inr (.inl rfl))
  | name word rest ih => exact ih.extend [_] nofun fun us hus => .step (.name rfl) hus
  | nodeType word rest ih =>
    exact ih.extend [_] nofun fun us hus => .step (.nodeType rfl) hus
  | target word rest ih =>
    exact ih.extend [_, _] nofun fun us hus => .step (.target rfl rfl rfl) hus
  | emptyCall word other rest ih =>
    exact ih.extend [_, _] nofun fun us hus => .step (.emptyCall rfl rfl) hus
  -- the arguments end with a token of the call, and what is behind it closes the rest
  | @call es ts s o o' word other depth rest ih =>
    obtain ⟨xs, u, vs, hts, hargs, hend, behind⟩ := ih.arguments (t := ⟨.argument, "", o'⟩) rfl
    have hcall : Generates .step (⟨.call, s, o⟩ :: (xs ++ [u])) := .call rfl hargs hend
    have hstep := behind.extend _ nofun fun us hus => .step hcall hus
    rw [hts]
    simpa using hstep
  | @predicateStart es ts o depth rest ih =>
    cases ih with
    | @predicate _ _ us u vs inside kind behind =>
      cases inside with
      | operand inside =>
        have hpredicate : Generates .predicate (⟨.predicateStart, "[", o⟩ :: (us ++ [u])) :=
          .predicate rfl inside kind
        have htrail := behind.extend _ nofun fun us hus => hus.append_predicate hpredicate
        simpa using htrail
  | slash rest ih => exact ih.extend [_] nofun fun us hus => hus.cons_slash (.inl rfl)
  | descent rest ih => exact ih.extend [_] nofun fun us hus => hus.cons_slash (.inr rfl)
  | pathEnd rest ih => exact ih.extend [_] nofun fun us hus => hus.cons_pathEnd rfl
  | noOperator => exact .whole (.operator .noOperator)
  | predicateEnd rest ih => exact .predicate (.operator .noOperator) rfl ih
  | callEnd rest ih => exact .call (.operator .noOperator) (.inl rfl) rfl ih
  | argument rest ih =>
    obtain ⟨xs, u, vs, hts, hargs, hend, behind⟩ := ih.arguments (t := ⟨.argument, ",", _⟩) rfl
    rw [hts]
    exact .call (.operator .noOperator) (.inr hargs) hend behind
  | operator op rest ih => exact ih.cons_operator rfl

/-- Outside of all brackets the tokens are those of the grammar. -/
theorem generates_of_lexed {limit : Nat} {ts : List Token} (h : Lexed limit .operand [] ts) :
    Generates .stream ts := by
  cases closes_of_lexed h with
  | nothing => exact .empty
  | whole inside =>
    cases inside with
    | operand inside => exact .whole inside
  | dangling inside kind =>
    cases inside with
    | operand inside => exact .dangling inside kind

/-! ### What is open between two tokens -/

/-- What may be open. -/
inductive Region
  | path
  | predicate
  | call
  deriving DecidableEq

/-- What is known between two tokens. -/
structure Nesting where
  /-- Whether an operand must follow. -/
  due : Bool
  /-- What is open, the innermost first. -/
  regions : List Region
  deriving DecidableEq

namespace Nesting

def start : Nesting :=
  ⟨true, []⟩

/-- Whether the region is the innermost one and no operand must follow. -/
def inside (n : Nesting) (r : Region) : Bool :=
  !n.due && n.regions.head? == some r

/-- Inside the path that is open, or else in one that begins where an operand must follow. -/
def inPath (n : Nesting) : Option Nesting :=
  if n.due then some ⟨false, .path :: n.regions⟩
  else if n.inside .path then some n
  else none

/-- Behind the end of the innermost region. -/
def close (n : Nesting) (r : Region) : Option Nesting :=
  if n.inside r then some ⟨false, n.regions.tail⟩ else none

/-- Behind a token, if it may stand here.  Every region is closed by a token of its own, and neither
that token nor an argument may follow where an operand must. -/
def read (n : Nesting) (t : Token) : Option Nesting :=
  match t.kind with
  | .string | .number => if n.due then some ⟨false, n.regions⟩ else none
  | .rootSlash | .rootDescent | .variable =>
    if n.due then some ⟨false, .path :: n.regions⟩ else none
  | .axis | .attributeSign | .nameSpace | .name | .nodeType => n.inPath
  | .call => n.inPath.map fun m => ⟨false, .call :: m.regions⟩
  | .target | .slash | .descent => if n.inside .path then some n else none
  | .argument => if n.inside .call then some ⟨true, n.regions⟩ else none
  | .predicateStart => if n.inside .path then some ⟨true, .predicate :: n.regions⟩ else none
  | .operator => if n.due || n.inside .path then none else some ⟨true, n.regions⟩
  | .callEnd => n.close .call
  | .predicateEnd => n.close .predicate
  | .pathEnd => n.close .path

def readAll (n : Nesting) (ts : List Token) : Option Nesting :=
  ts.foldlM read n

@[simp] theorem readAll_nil (n : Nesting) : n.readAll [] = some n := rfl

@[simp] theorem readAll_cons (n : Nesting) (t : Token) (ts : List Token) :
    n.readAll (t :: ts) = (n.read t).bind (readAll · ts) := rfl

@[simp] theorem readAll_append (n : Nesting) (ts us : List Token) :
    n.readAll (ts ++ us) = (n.readAll ts).bind (readAll · us) :=
  List.foldlM_append

end Nesting

/-- What a phrase leaves open: where an operand must follow it brings one, and it closes what it
opens, but for the path whose end does not belong to it. -/
def Rule.Keeps : Rule → List Token → Prop
  | .stream, ts => ∃ due, Nesting.start.readAll ts = some ⟨due, []⟩
  | .nested, ts => ∀ rs, rs.head? ≠ some .path → Nesting.readAll ⟨true, rs⟩ ts = some ⟨false, rs⟩
  | .operators, ts =>
    ∀ rs, rs.head? ≠ some .path → Nesting.readAll ⟨false, rs⟩ ts = some ⟨false, rs⟩
  | .operand, ts => ∀ rs, Nesting.readAll ⟨true, rs⟩ ts = some ⟨false, rs⟩
  | .path, ts => ∀ rs, Nesting.readAll ⟨true, rs⟩ ts = some ⟨false, .path :: rs⟩
  | .step, ts => ∀ n m, Nesting.inPath n = some m → n.readAll ts = some m
  | .arguments, ts => ∀ rs, Nesting.readAll ⟨false, .call :: rs⟩ ts = some ⟨false, .call :: rs⟩
  | .rest, ts | .predicate, ts | .predicates, ts =>
    ∀ rs, Nesting.readAll ⟨false, .path :: rs⟩ ts = some ⟨false, .path :: rs⟩

theorem Nesting.eq_of_inPath {n m : Nesting} (h : n.inPath = some m) :
    ∃ rs, m = ⟨false, .path :: rs⟩ := by
  obtain ⟨due, rs⟩ := n
  cases due with
  | true => exact ⟨rs, by simpa [inPath, eq_comm] using h⟩
  | false =>
    cases rs with
    | nil => simp [inPath, inside] at h
    | cons r rs =>
      simp only [inPath, inside] at h
      exact ⟨rs, by simp_all⟩

theorem Generates.keeps {rule : Rule} {ts : List Token} (h : Generates rule ts) :
    rule.Keeps ts := by
  induction h with
  | empty => exact ⟨true, rfl⟩
  | whole inside ih => exact ⟨false, ih [] nofun⟩
  | dangling inside kind ih =>
    refine ⟨true, ?_⟩
    simp [Nesting.start, ih [] nofun, Nesting.read, kind, Nesting.inside]
  | nested first more ihFirst ihMore =>
    intro rs hrs
    simp [ihFirst rs, ihMore rs hrs]
  | noOperator => exact fun rs _ => rfl
  | operator kind right more ihRight ihMore =>
    intro rs hrs
    simp [Nesting.read, kind, Nesting.inside, hrs, ihRight rs, ihMore rs hrs]
  | string kind =>
    intro rs
    simp [Nesting.read, kind]
  | number kind =>
    intro rs
    simp [Nesting.read, kind]
  | path inside kind ih =>
    intro rs
    simp [ih rs, Nesting.read, kind, Nesting.close, Nesting.inside]
  | root kind =>
    intro rs
    simp [Nesting.read, kind]
  | variableName kind conditions more ihConditions ihMore =>
    intro rs
    simp [Nesting.read, kind, ihConditions rs, ihMore rs]
  | relative first conditions more ihFirst ihConditions ihMore =>
    intro rs
    simp [ihFirst ⟨true, rs⟩ _ rfl, ihConditions rs, ihMore rs]
  | absolute kind first conditions more ihFirst ihConditions ihMore =>
    intro rs
    have hstep := ihFirst ⟨false, .path :: rs⟩ _ rfl
    rcases kind with kind | kind <;>
      simp [Nesting.read, kind, hstep, ihConditions rs, ihMore rs]
  | noStep => exact fun rs => rfl
  | further kind next conditions more ihNext ihConditions ihMore =>
    intro rs
    have hstep := ihNext ⟨false, .path :: rs⟩ _ rfl
    rcases kind with kind | kind <;>
      simp [Nesting.read, kind, Nesting.inside, hstep, ihConditions rs, ihMore rs]
  | mark kind more ih =>
    intro n m hm
    obtain ⟨rs, rfl⟩ := Nesting.eq_of_inPath hm
    have hstep := ih ⟨false, .path :: rs⟩ _ rfl
    rcases kind with kind | kind | kind <;> simp [Nesting.read, kind, hm, hstep]
  | name kind =>
    intro n m hm
    simp [Nesting.read, kind, hm]
  | nodeType kind =>
    intro n m hm
    simp [Nesting.read, kind, hm]
  | target kind text kind' =>
    intro n m hm
    obtain ⟨rs, rfl⟩ := Nesting.eq_of_inPath hm
    simp [Nesting.read, kind, kind', hm, Nesting.inside]
  | emptyCall kind kind' =>
    intro n m hm
    obtain ⟨rs, rfl⟩ := Nesting.eq_of_inPath hm
    simp [Nesting.read, kind, kind', hm, Nesting.close, Nesting.inside]
  | call kind inside kind' ih =>
    intro n m hm
    obtain ⟨rs, rfl⟩ := Nesting.eq_of_inPath hm
    simp [Nesting.read, kind, kind', hm, ih (.path :: rs), Nesting.close, Nesting.inside]
  | argument kind inside ih =>
    intro rs
    simp [Nesting.read, kind, Nesting.inside, ih (.call :: rs) nofun]
  | arguments kind inside more ihInside ihMore =>
    intro rs
    simp [Nesting.read, kind, Nesting.inside, ihInside (.call :: rs) nofun, ihMore rs]
  | predicate kind inside kind' ih =>
    intro rs
    simp [Nesting.read, kind, kind', Nesting.close, Nesting.inside,
      ih (.predicate :: .path :: rs) nofun]
  | noPredicate => exact fun rs => rfl
  | predicates first more ihFirst ihMore =>
    intro rs
    simp [ihFirst rs, ihMore rs]

end Lexer

/-! ### Whole texts -/

/-- The tokens of a text are those of the grammar.  So every call, every predicate and every path is
closed by a token of its own, in turn, and only at the end of all tokens an operand may be missing.
-/
theorem tokenize_generated {limit : Nat} {s : String} {ts : List Token}
    (h : tokenize limit s = .ok ts) :
    Lexer.Generates .stream ts ∧ ∃ due, Lexer.Nesting.start.readAll ts = some ⟨due, []⟩ := by
  have hlexed : Lexer.Lexed limit .operand [] ts := Lexer.lexed_of_run (Lexer.start s) ts h
  have hgenerated := Lexer.generates_of_lexed hlexed
  exact ⟨hgenerated, hgenerated.keeps⟩

/-- A predicate inside an argument, and an operator that dangles. -/
theorem tokenize_generated_dangling :
    ∃ ts, tokenize 2 "f(a[1])/b =" = .ok ts ∧
      ts.map Token.kind = [.call, .argument, .name, .predicateStart, .number, .predicateEnd,
        .pathEnd, .callEnd, .slash, .name, .pathEnd, .operator] ∧
      Lexer.Generates .stream ts ∧ ∃ due, Lexer.Nesting.start.readAll ts = some ⟨due, []⟩ := by
  have hkinds : (tokenize 2 "f(a[1])/b =").map (List.map Token.kind) = .ok [.call, .argument, .name,
      .predicateStart, .number, .predicateEnd, .pathEnd, .callEnd, .slash, .name, .pathEnd,
      .operator] := by
    decide +kernel
  obtain ⟨ts, hts, hkinds⟩ := map_eq_ok.1 hkinds
  exact ⟨ts, hts, hkinds, tokenize_generated hts⟩

end XPath
