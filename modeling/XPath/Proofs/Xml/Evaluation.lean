import XPath.Proofs.Eval.Contained
import XPath.Proofs.Xml.Location

/-!
# Evaluations on documents

The links of a document agree and the standard registry is faithful, so an expression that was read
can fail on a document only over the type of a value or over a variable.

* `Document.env`: evaluations on a document;
* `Document.grounded`: what they may rely on;
* `Document.evaluate_cases`: how they end.
-/

namespace XPath.Xml
namespace Document

/-- Evaluations on a document, with the standard functions. -/
def env (d : Document) (bindings : Bindings Location) (strict : Bool) : Env Location :=
  ⟨d.tree, [], .standard, bindings, strict⟩

variable {d : Document} {bindings : Bindings Location}

theorem grounded (strict : Bool) (hb : ∀ name ns, bindings.get? name = some (.nodes ns) →
    ∀ n ∈ ns, d.tree.Reaches [] n) : (d.env bindings strict).Grounded where
  linked := d.linked
  faithful := Registry.faithful_standard
  bindings name v hv := by
    cases v with
    | nodes ns => exact hb name ns hv
    | string s => trivial
    | number x => trivial
    | boolean b => trivial

/-- From every node of a document, at every position, an expression that was read has a value whose
nodes are of the document, or a value in it has the wrong type, or, where that is an error, one of
its variables has no value. -/
theorem evaluate_cases {limit : Nat} {text : String} {e : Expr}
    (he : parse .standard limit text = .ok e) (strict : Bool)
    (hb : ∀ name ns, bindings.get? name = some (.nodes ns) → ∀ n ∈ ns, d.tree.Reaches [] n)
    {n : Location} (hn : d.tree.Reaches [] n) (position size : Nat) :
    (∃ v, XPath.evaluate (d.env bindings strict) e ⟨n, position, size⟩ = .ok v ∧
      v.Within (d.tree.Reaches [])) ∨
    (∃ error, XPath.evaluate (d.env bindings strict) e ⟨n, position, size⟩
      = .error (.conversion error)) ∨
    (strict = true ∧ ∃ name, .variable name ∈ e.parts ∧ bindings.get? name = none ∧
      XPath.evaluate (d.env bindings strict) e ⟨n, position, size⟩
        = .error (.unknownVariable name)) := by
  have hcontains : (d.env bindings strict).Contains e.parts e :=
    contains_of_parts (grounded strict hb) (allowed_of_parse he) e fun _ hp => hp
  have hends := hcontains ⟨n, position, size⟩ hn
  cases hv : XPath.evaluate (d.env bindings strict) e ⟨n, position, size⟩ with
  | ok v =>
    rw [hv] at hends
    exact .inl ⟨v, rfl, hends⟩
  | error err =>
    rw [hv] at hends
    cases err with
    | conversion error => exact .inr (.inl ⟨error, rfl⟩)
    | unknownVariable name =>
      obtain ⟨hstrict, hmem, hget⟩ := hends
      exact .inr (.inr ⟨hstrict, name, hmem, hget, rfl⟩)
    | call error => exact hends.elim
    | tree error => exact hends.elim
    | missingArgument function index => exact hends.elim

/-- An element with an attribute and one child. -/
def letter : Document :=
  ⟨[.element ⟨none, "letter"⟩ [] [⟨⟨none, "id"⟩, "k"⟩] [.text " ", .element ⟨none, "p"⟩ [] [] []]]⟩

/-- From the attribute of the letter, with the letter itself in a variable, an expression with a
predicate, a call, an unbound variable and a further step. -/
theorem evaluate_cases_letter : ∃ e : Expr,
    parse .standard 32 "$kept[starts-with(name(), $other)]/following::node()" = .ok e ∧
      letter.tree.Reaches [] [.attribute 0, .child 0] ∧
      ((∃ v, XPath.evaluate (letter.env (Bindings.empty.set "kept" (.nodes [[.child 0]])) false) e
          ⟨[.attribute 0, .child 0], 1, 1⟩ = .ok v) ∨
        ∃ error, XPath.evaluate (letter.env (Bindings.empty.set "kept" (.nodes [[.child 0]])) false)
          e ⟨[.attribute 0, .child 0], 1, 1⟩ = .error (.conversion error)) := by
  have hchild : letter.tree.Reaches [] [.child 0] := .child .root (by decide +kernel)
  have hattribute : letter.tree.Reaches [] [.attribute 0, .child 0] :=
    .attributeOf hchild (by decide +kernel)
  have hkept : ∀ name ns,
      (Bindings.empty.set "kept" (.nodes [[.child 0]])).get? name = some (.nodes ns) →
      ∀ n ∈ ns, letter.tree.Reaches [] n := by
    intro name ns h n hn
    rw [Bindings.get?_set] at h
    split at h
    · cases h
      rw [List.mem_singleton.1 hn]
      exact hchild
    · simp at h
  obtain ⟨e, he⟩ := exists_eq_ok_of_isOk (x := parse .standard 32
    "$kept[starts-with(name(), $other)]/following::node()") (by decide +kernel)
  refine ⟨e, he, hattribute, ?_⟩
  rcases evaluate_cases he false hkept hattribute 1 1 with ⟨v, hv, -⟩ | herror | ⟨hstrict, -⟩
  · exact .inl ⟨v, hv⟩
  · exact .inr herror
  · simp at hstrict

end Document
end XPath.Xml
